import Mathlib.Algebra.Order.BigOperators.Group.List
import Mathlib.Algebra.Order.Ring.Nat
import MtpMount.Chains
import MtpMount.Recovery
import MtpMount.Schedule

/-!
# What a call gets for its reconnects

`withRecovery` reconnects at the end of each round, the last one too, and every
reconnect waits out a schedule of its own.

* `resumes_iff`: each successful reconnect is followed by an attempt, except
  where the last round had one or the switch reads unplugged again;
* `waits_window_iff`: when the pauses of all reconnects of a call together stay
  within the window.
-/

namespace MtpMount

open Interaction

variable {E σ α : Type} {R : Answers Call Answer E}

/-! ## From a reconnect to the next attempt -/

/-- A reconnect, however it ended. -/
def RecoveryStep.isReconnect : RecoveryStep α → Bool
  | reconnected _ => true
  | _ => false

/-- A reconnect that took over a device. -/
def RecoveryStep.isReconnected : RecoveryStep α → Bool
  | reconnected (.ok _) => true
  | _ => false

/-- After every reconnect that took over a device comes an attempt. -/
def Resumes (steps : List (σ × RecoveryStep α)) : Prop :=
  ∀ before s u after, steps = before ++ (s, .reconnected (.ok u)) :: after →
    ∃ s' outcome rest, after = (s', .attempt outcome) :: rest

/-- Such a reconnect is the last thing that is done. -/
def EndsReconnected (steps : List (σ × RecoveryStep α)) : Prop :=
  ∃ x ∈ steps.getLast?, x.2.isReconnected = true

/-- The switch reads unplugged right after such a reconnect. -/
def UnpluggedAgain (steps : List (σ × RecoveryStep α)) : Prop :=
  ∃ before s u s' after, steps = before ++ (s, .reconnected (.ok u)) :: (s', .unplugged) :: after

/-- A run of `withRecovery attempt` taken apart. -/
def Recovers [HasLink σ] (R : Answers Call Answer E) (attempt : Attempt Call Answer σ Error α)
    (s : σ) (e : E) (steps : List (σ × RecoveryStep α)) (r : Except Error α) (s' : σ) (e' : E) : Prop :=
  Steps R attempt s e steps s' e' ∧ Rounds MAX_ATTEMPTS steps r

section Resumes

variable {s s' : σ} {steps rest : List (σ × RecoveryStep α)} {n : Nat}

theorem withRecovery_recovers [HasLink σ] {attempt : Attempt Call Answer σ Error α} {e e' : E}
    {r : Except Error α} (h : Prog.Ends R ((withRecovery attempt).run s) e (r, s') e') :
    ∃ steps, Recovers R attempt s e steps r s' e' := by
  have hall : ∀ s e, (attempt.run s).wp R (fun _ _ => True) (fun _ _ => True) e :=
    fun s e => Prog.wp_of_forall _ (fun _ _ => trivial) e
  exact Act.wp_ends (recoveryRounds_steps (fun _ _ _ => trivial) hall MAX_ATTEMPTS) h

theorem OneSession.not_isReconnect {r : Option (Except Error α)} (h : OneSession n steps r) :
    ∀ x ∈ steps, x.2.isReconnect = false := by
  induction h with
  | again _ _ ih =>
    intro x hx
    rcases List.mem_cons.mp hx with rfl | hx
    · rfl
    · rcases List.mem_cons.mp hx with rfl | hx
      · rfl
      · exact ih x hx
  | _ =>
    intro x hx
    cases List.mem_singleton.mp hx
    rfl

theorem OneSession.countP_isReconnect {r : Option (Except Error α)} (h : OneSession n steps r) :
    steps.countP (fun x => x.2.isReconnect) = 0 :=
  List.countP_eq_zero.mpr fun x hx => by
    rw [h.not_isReconnect x hx]
    exact Bool.false_ne_true

theorem OneSession.not_isReconnected {r : Option (Except Error α)} (h : OneSession n steps r) :
    ∀ x ∈ steps, x.2.isReconnected = false := by
  rintro ⟨s, step⟩ hx
  have hno := h.not_isReconnect _ hx
  cases step with
  | reconnected outcome => cases hno
  | _ => rfl

theorem OneSession.countP_isReconnected {r : Option (Except Error α)} (h : OneSession n steps r) :
    steps.countP (fun x => x.2.isReconnected) = 0 :=
  List.countP_eq_zero.mpr fun x hx => by
    rw [h.not_isReconnected x hx]
    exact Bool.false_ne_true

theorem OneSession.not_endsReconnected {r : Option (Except Error α)} (h : OneSession n steps r) :
    ¬ EndsReconnected steps := by
  rintro ⟨x, hx, hrec⟩
  rw [h.not_isReconnected x (List.mem_of_getLast? hx)] at hrec
  cases hrec

theorem Rounds.ne_nil {r : Except Error α} (h : Rounds n steps r) (hn : 0 < n) : steps ≠ [] := by
  cases h with
  | exhausted => exact absurd hn (Nat.lt_irrefl 0)
  | done h => cases h <;> nofun
  | gaveUp h => simp
  | resumed h _ => simp

/-- A run ends with a reconnect that took over a device exactly when it has one in
every round, and then with an error. -/
theorem Rounds.endsReconnected_iff {r : Except Error α} (h : Rounds n steps r) (hn : 0 < n) :
    steps.countP (fun x => x.2.isReconnected) ≤ n ∧
      (EndsReconnected steps ↔ steps.countP (fun x => x.2.isReconnected) = n) ∧
      (EndsReconnected steps → r = .error .disconnected) := by
  induction h with
  | exhausted => exact absurd hn (Nat.lt_irrefl 0)
  | done h =>
    rw [h.countP_isReconnected]
    exact ⟨Nat.zero_le _, ⟨fun he => absurd he h.not_endsReconnected, fun he => by omega⟩,
      fun he => absurd he h.not_endsReconnected⟩
  | @gaveUp n steps s err h =>
    let last : σ × RecoveryStep α := (s, .reconnected (.error err))
    have hcount : (steps ++ [last]).countP (fun x => x.2.isReconnected) = 0 := by
      rw [List.countP_append, h.countP_isReconnected]
      rfl
    have hno : ¬ EndsReconnected (steps ++ [last]) := by
      rintro ⟨x, hx, hrec⟩
      rw [List.getLast?_concat] at hx
      cases hx
      cases hrec
    rw [hcount]
    exact ⟨Nat.zero_le _, ⟨fun he => absurd he hno, fun he => by omega⟩, fun he => absurd he hno⟩
  | @resumed n steps rest s u r h hrest ih =>
    let next : σ × RecoveryStep α := (s, .reconnected (.ok u))
    have hcount : (steps ++ next :: rest).countP (fun x => x.2.isReconnected) =
        rest.countP (fun x => x.2.isReconnected) + 1 := by
      rw [List.countP_append, h.countP_isReconnected, List.countP_cons_of_pos rfl, Nat.zero_add]
    rw [hcount]
    obtain _ | n := n
    · -- the last round: nothing comes after its reconnect
      cases hrest with
      | exhausted =>
        refine ⟨Nat.le_refl _, ⟨fun _ => rfl, fun _ => ⟨_, List.getLast?_concat, rfl⟩⟩, fun _ => rfl⟩
    · obtain ⟨hle, hiff, herr⟩ := ih (Nat.succ_pos n)
      have hlast : EndsReconnected (steps ++ next :: rest) ↔
          EndsReconnected rest := by
        obtain ⟨y, hy⟩ := Option.isSome_iff_exists.mp
          (List.getLast?_isSome.mpr (hrest.ne_nil (Nat.succ_pos n)))
        unfold EndsReconnected
        rw [List.getLast?_append, List.getLast?_cons, hy]
        rfl
      rw [hlast]
      exact ⟨Nat.succ_le_succ hle, hiff.trans (by omega), herr⟩

/-- What comes after a reconnect that took over a device is an attempt, or the switch
reads unplugged. -/
theorem resumes_iff_chain (h : steps.IsChain fun a b => a.2.Follows b.2) :
    Resumes steps ↔ ¬ EndsReconnected steps ∧ ¬ UnpluggedAgain steps := by
  constructor
  · intro hres
    constructor
    · rintro ⟨⟨s, step⟩, hx, hrec⟩
      obtain ⟨before, rfl⟩ := List.getLast?_eq_some_iff.mp hx
      rcases step with _ | _ | _ | (err | u)
      · cases hrec
      · cases hrec
      · cases hrec
      · cases hrec
      · obtain ⟨s', outcome, rest, hnil⟩ := hres before s u [] rfl
        cases hnil
    · rintro ⟨before, s, u, s', after, rfl⟩
      obtain ⟨s'', outcome, rest, hcons⟩ := hres before s u _ rfl
      cases hcons
  · rintro ⟨hend, hagain⟩ before s u after rfl
    rcases after with _ | ⟨⟨s', step⟩, rest⟩
    · exact absurd ⟨_, List.getLast?_concat, rfl⟩ hend
    · have hf := (List.isChain_append_cons_cons.mp h).2.1
      cases step with
      | unplugged => exact absurd ⟨before, s, u, s', rest, rfl⟩ hagain
      | attempt outcome => exact ⟨s', outcome, rest, rfl⟩
      | invalidated =>
        obtain ⟨err, he, -⟩ := hf
        cases he
      | reconnected outcome => exact hf.elim

/-- When a call goes on after each successful reconnect: fewer than `MAX_ATTEMPTS` of
them succeed, and after none of them the switch reads unplugged. Where the last round
has one, nothing follows and the call fails. -/
theorem resumes_iff [HasLink σ] {attempt : Attempt Call Answer σ Error α} {e e' : E}
    {r : Except Error α} (h : Prog.Ends R ((withRecovery attempt).run s) e (r, s') e') :
    (∃ steps, Recovers R attempt s e steps r s' e') ∧
    ∀ steps, Recovers R attempt s e steps r s' e' →
      (Resumes steps ↔ steps.countP (fun x => x.2.isReconnected) < MAX_ATTEMPTS ∧
        ¬ UnpluggedAgain steps) ∧
      (EndsReconnected steps ↔ steps.countP (fun x => x.2.isReconnected) = MAX_ATTEMPTS) ∧
      (EndsReconnected steps → r = .error .disconnected) := by
  refine ⟨withRecovery_recovers h, fun steps hrec => ?_⟩
  obtain ⟨hle, hiff, herr⟩ := hrec.2.endsReconnected_iff (by decide)
  refine ⟨(resumes_iff_chain hrec.2.inRounds.chain).trans (and_congr_left fun _ => ?_), hiff, herr⟩
  rw [hiff]
  omega

/-- The listing of the card, across one loss, does not end with its reconnect. -/
theorem resumes_iff_reopened : ∃ steps l' tr',
    Recovers AnyAnswer (listIntoTable 2) cardLink [] steps (.ok ()) l' tr' ∧
      ¬ EndsReconnected steps ∧ (Resumes steps ↔ ¬ UnpluggedAgain steps) := by
  have ht : (((withRecovery (listIntoTable 2)).run cardLink).runWith (script listingDropped) []).any
      (fun x => x.1.1.isOk) = true := by rfl
  obtain ⟨⟨⟨r, l'⟩, tr'⟩, hrun, hok⟩ := (Option.any_eq_true _ _).mp ht
  obtain ⟨⟨steps, hrec⟩, hall⟩ :=
    resumes_iff (Prog.runWith_ends (anyAnswer_of_script listingDropped) hrun)
  obtain ⟨hiff, hends, herr⟩ := hall steps hrec
  rcases r with err | u
  · cases hok
  · have hno : ¬ EndsReconnected steps := fun he => nomatch herr he
    refine ⟨steps, l', tr', hrec, hno, hiff.trans (and_iff_right ?_)⟩
    have hle := (hrec.2.endsReconnected_iff (by decide)).1
    have hne := mt hends.mpr hno
    omega

end Resumes

/-! ## A listing that is lost each time -/

section Lost

variable {attempt : Attempt Call Answer σ Error α} {s s' : σ} {e e' : E}
  {steps : List (σ × RecoveryStep α)}

/-- All but the inodes is as it was. -/
def OnlyInodes (l l' : Link) : Prop := l' = { l with inodes := l'.inodes }

/-- A listing touches the inodes only, and asks for nothing that a recovery does. -/
theorem listIntoTable_onlyInodes (parentInode : Nat) {l : Link} {e : E} :
    Attempt.wp R (fun _ c => c.isRecovery = false) (listIntoTable parentInode)
      (fun _ l' _ => OnlyInodes l l') (fun _ l' _ => OnlyInodes l l') l e := by
  have hrefreshes : ∀ {P l'}, Refreshes P l l' → OnlyInodes l l' := fun h => by
    unfold OnlyInodes
    rw [h.rest]
  have hparent : Attempt.wp R (fun _ c => c.isRecovery = false) (parentHandle parentInode)
      (fun _ l' _ => OnlyInodes l l') (fun _ l' _ => OnlyInodes l l') l e := by
    unfold parentHandle
    rw [Attempt.wp_bind]
    refine Attempt.wp_mono (ensureFresh_refreshes parentInode (fun _ _ _ => rfl) fun _ _ => rfl)
      (fun _ l' e' h => ?_) fun _ _ _ h => hrefreshes h
    simp only [Attempt.wp_bind, Attempt.wp_get]
    split <;> exact hrefreshes h
  unfold listIntoTable
  rw [Attempt.wp_bind]
  refine Attempt.wp_mono hparent ?_ fun _ _ _ h => h
  intro parent l' e' hrest
  rw [Attempt.wp_bind]
  refine storageOf_wp (fun _ => rfl) (fun storage _ => ?_) hrest
  rw [Attempt.wp_bind, Attempt.wp_mk]
  refine wp_call.mpr ⟨rfl, fun answer e₁ _ => ?_⟩
  rcases answer with err | objects
  · exact hrest
  · have hmod : OnlyInodes l
        { l' with inodes := l'.inodes.syncChildren parentInode (objects.map childInfo) } := by
      unfold OnlyInodes
      rw [hrest]
    exact hmod

/-- So does every run of it. -/
theorem onlyInodes_of_ends {parentInode : Nat} {l l' : Link} {e e' : E} {r : Except Error Unit}
    (h : Prog.Ends R ((listIntoTable parentInode).run l) e (r, l') e') : OnlyInodes l l' := by
  have hwp := (Attempt.wp_run _ fun _ l' _ => OnlyInodes l l').mpr
    (listIntoTable_onlyInodes (R := R) parentInode (l := l) (e := e))
  have hrest := Act.wp_ends hwp h
  exact hrest

/-- Every device that is taken over starts an event loop of its own. -/
theorem Steps.eventEpoch [HasLink σ] (h : Steps R attempt s e steps s' e')
    (hkeep : ∀ s e r s' e', Prog.Ends R (attempt.run s) e (r, s') e' →
      (HasLink.link s').eventEpoch = (HasLink.link s).eventEpoch) :
    (HasLink.link s').eventEpoch =
      (HasLink.link s).eventEpoch + steps.countP fun x => x.2.isReconnected := by
  induction h with
  | nil => rfl
  | @cons s s₁ s' e e₁ e' step rest ht _ ih =>
    have hdoes := ht.does
    rw [ih]
    rcases step with _ | r | _ | (err | u)
    · rw [show HasLink.link s₁ = HasLink.link s from hdoes, List.countP_cons_of_neg Bool.false_ne_true]
    · cases ht with
      | attempt _ hends => rw [hkeep _ _ _ _ _ hends, List.countP_cons_of_neg Bool.false_ne_true]
    · rw [show HasLink.link s₁ = (HasLink.link s).invalidateHandles from hdoes,
        List.countP_cons_of_neg Bool.false_ne_true]
      rfl
    · obtain ⟨reason, hl⟩ := hdoes
      rw [hl, List.countP_cons_of_neg Bool.false_ne_true]
      rfl
    · obtain ⟨device, infos, hl⟩ := hdoes
      rw [hl, List.countP_cons_of_pos rfl]
      show (HasLink.link s).eventEpoch + 1 + _ = _
      omega

/-- A phone that comes back each time, and whose sessions are all gone when a
folder is listed. -/
def listingLost (_ : List Event) : (c : Call) → Option (Answer c)
  | .storages _ => some (.ok [⟨⟨1⟩, "Card", 100, 50⟩])
  | .listObjects .. => some (.error .deviceReset)
  | .openDevice => some (.ok ⟨1, true, true⟩)
  | c => undisturbed c

/-- The last thing the listing of the card gets is a device to list it on. -/
theorem resumes_lost : ∃ steps l' tr',
    Recovers AnyAnswer (listIntoTable 2) cardLink [] steps (.error .disconnected) l' tr' ∧
      EndsReconnected steps ∧ ¬ Resumes steps := by
  have ht : (((withRecovery (listIntoTable 2)).run cardLink).runWith (script listingLost) []).any
      (fun x => !x.1.1.isOk && x.1.2.eventEpoch == 3) = true := by rfl
  obtain ⟨⟨⟨r, l'⟩, tr'⟩, hrun, htest⟩ := (Option.any_eq_true _ _).mp ht
  obtain ⟨hok, hepoch⟩ := Bool.and_eq_true_iff.mp htest
  obtain ⟨steps, hrec⟩ :=
    withRecovery_recovers (Prog.runWith_ends (anyAnswer_of_script listingLost) hrun)
  have hcount : l'.eventEpoch = 0 + steps.countP fun x => x.2.isReconnected := by
    refine hrec.1.eventEpoch fun l e r l' e' hends => ?_
    show l'.eventEpoch = l.eventEpoch
    rw [onlyInodes_of_ends hends]
  rw [eq_of_beq hepoch, Nat.zero_add] at hcount
  obtain ⟨-, hiff, herr⟩ := hrec.2.endsReconnected_iff (by decide)
  have hends := hiff.mpr hcount.symm
  cases herr hends
  exact ⟨steps, l', tr', hrec, hends, fun hres =>
    ((resumes_iff_chain hrec.2.inRounds.chain).mp hres).1 hends⟩

end Lost

/-! ## How long a call waits -/

/-- How long the call pauses. -/
def Event.pause : Event → Nat
  | ⟨.sleep delay, _⟩ => delay
  | _ => 0

/-- A look at the switch. -/
def Event.isLook : Event → Bool
  | ⟨.isUnplugged, _⟩ => true
  | _ => false

/-- The pauses in a trace. -/
def slept (log : List Event) : Nat := (log.map Event.pause).sum

/-- How often a reconnect tries: there is a look at the switch in each try. -/
def tries (log : List Event) : Nat := log.countP Event.isLook

/-- The first pauses of a window that never ends. -/
def backoffSum (n : Nat) : Nat :=
  ((List.range n).map fun k => min (FIRST_DELAY * 2 ^ k) MAX_DELAY).sum

/-- A run taken apart, with what each of its reconnects leaves in the trace. -/
inductive Waits [HasLink σ] (attempt : Attempt Call Answer σ Error α) :
    σ → List Event → List (σ × RecoveryStep α) → List (List Event) → σ → List Event → Prop
  | nil {s : σ} {tr : List Event} : Waits attempt s tr [] [] s tr
  | reconnected {s s₁ s' : σ} {tr log tr' : List Event} {r : Except Error Unit}
      {rest : List (σ × RecoveryStep α)} {logs : List (List Event)} :
      Advances AnyAnswer attempt (.reconnected r) s tr s₁ (tr ++ log) →
      Waits attempt s₁ (tr ++ log) rest logs s' tr' →
      Waits attempt s tr ((s, .reconnected r) :: rest) (log :: logs) s' tr'
  | other {s s₁ s' : σ} {tr tr₁ tr' : List Event} {step : RecoveryStep α}
      {rest : List (σ × RecoveryStep α)} {logs : List (List Event)} :
      (∀ r, step ≠ .reconnected r) → Advances AnyAnswer attempt step s tr s₁ tr₁ →
      Waits attempt s₁ tr₁ rest logs s' tr' →
      Waits attempt s tr ((s, step) :: rest) logs s' tr'

section Waits

theorem slept_append (log log' : List Event) : slept (log ++ log') = slept log + slept log' := by
  unfold slept
  rw [List.map_append, List.sum_append]

theorem tries_append (log log' : List Event) : tries (log ++ log') = tries log + tries log' :=
  List.countP_append

/-- A run adds to the trace, and what it adds are calls it was allowed. -/
theorem ends_log {P : Call → Prop} {p : Prog Call Answer α} {Q : α → List Event → Prop}
    {tr tr' : List Event} {a : α} (hwp : p.wp AnyAnswer (fun _ c => P c) Q tr)
    (h : Prog.Ends AnyAnswer p tr a tr') : ∃ log, tr' = tr ++ log ∧ ∀ ev ∈ log, P ev.call := by
  induction h with
  | done a tr => exact ⟨[], (List.append_nil tr).symm, nofun⟩
  | call hr _ ih =>
    cases hr
    obtain ⟨log, rfl, hlog⟩ := ih (hwp.2 _ _ (.intro _ _ _))
    refine ⟨_ :: log, List.append_assoc _ _ _, fun ev hev => ?_⟩
    rcases List.mem_cons.mp hev with rfl | hev
    · exact hwp.1
    · exact hlog ev hev

/-! ### One reconnect -/

/-- The first pauses of a schedule. -/
theorem Backoff.sum_take_delays (fuel k remaining n : Nat) (hfuel : remaining ≤ fuel) :
    (((Backoff.mk remaining (min (FIRST_DELAY * 2 ^ k) MAX_DELAY)).delays fuel).take n).sum =
      min remaining
        ((List.range n).map fun i => min (FIRST_DELAY * 2 ^ (k + i)) MAX_DELAY).sum := by
  induction fuel generalizing k remaining n with
  | zero =>
    obtain rfl := Nat.le_zero.mp hfuel
    rw [Nat.zero_min, Backoff.delays, List.take_nil]
    rfl
  | succ fuel ih =>
    obtain _ | n := n
    · rw [List.take_zero]
      exact (Nat.min_zero _).symm
    · have hpos := doubled_pos k
      have hnext := doubled k
      have hsum : ((List.range (n + 1)).map fun i => min (FIRST_DELAY * 2 ^ (k + i)) MAX_DELAY).sum =
          min (FIRST_DELAY * 2 ^ k) MAX_DELAY +
            ((List.range n).map fun i => min (FIRST_DELAY * 2 ^ (k + 1 + i)) MAX_DELAY).sum := by
        rw [List.range_succ_eq_map, List.map_cons, List.sum_cons, List.map_map]
        congr 3
        funext i
        rw [Function.comp_apply, Nat.succ_eq_add_one, Nat.add_assoc, Nat.add_comm 1 i]
      rw [hsum, Backoff.delays, Backoff.advance]
      generalize min (FIRST_DELAY * 2 ^ k) MAX_DELAY = delay at hpos hnext
      dsimp only
      by_cases hzero : remaining = 0
      · rw [if_pos hzero, hzero, Nat.zero_min]
        rfl
      · rw [if_neg hzero]
        dsimp only
        rw [List.take_succ_cons, List.sum_cons, hnext, ih (k + 1) _ n (by omega)]
        omega

theorem ReconnectPolicy.sum_take_schedule (p : ReconnectPolicy) (n : Nat) :
    (p.schedule.take n).sum = min p.timeout (backoffSum n) := by
  have hsum := Backoff.sum_take_delays p.timeout 0 p.timeout n (Nat.le_refl _)
  simp only [Nat.zero_add, Nat.pow_zero, Nat.mul_one] at hsum
  exact hsum

/-- A reconnect with these pauses to take added this to the trace. -/
def Waited (delays : List Nat) (tr tr' : List Event) : Prop :=
  ∃ log, tr' = tr ++ log ∧ tries log ≤ delays.length ∧ (delays ≠ [] → 0 < tries log) ∧
    slept log = (delays.take (tries log)).sum

/-- One try, and it was the last. -/
theorem Waited.last {delay : Nat} {rest : List Nat} {tr log : List Event} (hlook : tries log = 1)
    (hpause : slept log = delay) : Waited (delay :: rest) tr (tr ++ log) := by
  refine ⟨log, rfl, ?_, fun _ => ?_, ?_⟩
  · rw [hlook, List.length_cons]
    exact Nat.le_add_left 1 _
  · rw [hlook]
    exact Nat.zero_lt_one
  · rw [hlook, hpause, List.take_succ_cons, List.take_zero, List.sum_singleton]

/-- One try, and more of them. -/
theorem Waited.cons {delay : Nat} {rest : List Nat} {tr log tr' : List Event} (hlook : tries log = 1)
    (hpause : slept log = delay) (h : Waited rest (tr ++ log) tr') :
    Waited (delay :: rest) tr tr' := by
  obtain ⟨more, rfl, hle, -, hsum⟩ := h
  have htries : tries (log ++ more) = tries more + 1 := by
    rw [tries_append, hlook, Nat.add_comm]
  refine ⟨log ++ more, List.append_assoc _ _ _, ?_, fun _ => ?_, ?_⟩
  · rw [htries, List.length_cons]
    exact Nat.succ_le_succ hle
  · rw [htries]
    exact Nat.succ_pos _
  · rw [htries, slept_append, hpause, hsum, List.take_succ_cons, List.sum_cons]

theorem reconnectAfter_waited (delays : List Nat) {l : Link} {tr : List Event} :
    Attempt.wp AnyAnswer (fun _ _ => True) (reconnectAfter delays)
      (fun _ _ tr' => Waited delays tr tr') (fun _ _ tr' => Waited delays tr tr') l tr := by
  induction delays generalizing tr with
  | nil =>
    exact ⟨[], (List.append_nil tr).symm, Nat.le_refl 0, fun h => absurd rfl h, rfl⟩
  | cons delay rest ih =>
    unfold reconnectAfter
    simp only [Attempt.wp_bind, Attempt.wp_lift]
    refine wp_call.mpr ⟨trivial, fun _ _ hr => ?_⟩
    cases hr
    refine wp_call.mpr ⟨trivial, fun out _ hr => ?_⟩
    cases hr
    rw [List.append_assoc]
    split
    · exact Attempt.wp_mono ih (fun _ _ _ => .cons rfl rfl) fun _ _ _ => .cons rfl rfl
    · simp only [Attempt.wp_bind, Attempt.wp_outcome, Attempt.wp_mk]
      refine wp_call.mpr ⟨trivial, fun answer _ hr => ?_⟩
      cases hr
      rw [List.append_assoc]
      rcases answer with err | device
      · exact Attempt.wp_mono ih (fun _ _ _ => .cons rfl rfl) fun _ _ _ => .cons rfl rfl
      · unfold adopt
        simp only [Attempt.wp_bind, Attempt.wp_mk, Attempt.wp_modify, Attempt.wp_get, Attempt.wp_lift]
        refine wp_call.mpr ⟨trivial, fun answer _ hr => ?_⟩
        cases hr
        rw [List.append_assoc]
        rcases answer with err | infos
        · exact Attempt.wp_mono ih (fun _ _ _ => .cons rfl rfl) fun _ _ _ => .cons rfl rfl
        · refine wp_call.mpr ⟨trivial, fun _ _ hr => ?_⟩
          cases hr
          refine wp_call.mpr ⟨trivial, fun _ _ hr => ?_⟩
          cases hr
          rw [List.append_assoc, List.append_assoc]
          exact .last rfl rfl

theorem ReconnectPolicy.schedule_of_disabled {p : ReconnectPolicy} (h : p.isDisabled = true) :
    p.schedule = [] := by
  unfold schedule
  rw [eq_of_beq h]
  rfl

theorem ReconnectPolicy.schedule_ne_nil {p : ReconnectPolicy} (h : 0 < p.timeout) :
    p.schedule ≠ [] := by
  unfold schedule
  obtain ⟨fuel, hfuel⟩ := Nat.exists_eq_succ_of_ne_zero h.ne'
  rw [hfuel, Backoff.delays, Backoff.advance, if_neg (Nat.succ_ne_zero fuel)]
  exact List.cons_ne_nil _ _

theorem reconnect_waited {l : Link} {tr : List Event} :
    Attempt.wp AnyAnswer (fun _ _ => True) reconnect
      (fun _ _ tr' => Waited l.policy.schedule tr tr')
      (fun _ _ tr' => Waited l.policy.schedule tr tr') l tr := by
  unfold reconnect
  simp only [Attempt.wp_bind, Attempt.wp_get]
  split
  · rename_i hoff
    simp only [Attempt.wp_bind, Attempt.wp_modify, Attempt.wp_throw]
    rw [ReconnectPolicy.schedule_of_disabled hoff]
    exact ⟨[], (List.append_nil tr).symm, Nat.le_refl 0, fun h => absurd rfl h, rfl⟩
  · exact reconnectAfter_waited _

/-- What a reconnect waits: the first pauses, as many as it made tries. -/
structure WaitsFor (timeout : Nat) (log : List Event) : Prop where
  slept : slept log = min timeout (backoffSum (tries log))
  tried : 0 < timeout → 0 < tries log
  off : timeout = 0 → tries log = 0

theorem Waited.waitsFor {p : ReconnectPolicy} {tr log : List Event}
    (h : Waited p.schedule tr (tr ++ log)) : WaitsFor p.timeout log := by
  obtain ⟨log', heq, hle, hne, hsum⟩ := h
  obtain rfl := List.append_cancel_left heq
  refine ⟨hsum.trans (p.sum_take_schedule _), fun hpos => hne (p.schedule_ne_nil hpos), fun hzero => ?_⟩
  rw [ReconnectPolicy.schedule_of_disabled (beq_iff_eq.mpr hzero)] at hle
  exact Nat.le_zero.mp hle

/-! ### All of them -/

variable [HasLink σ] {attempt : Attempt Call Answer σ Error α} {s s₁ s' : σ} {tr tr' : List Event}
  {steps : List (σ × RecoveryStep α)} {logs : List (List Event)} {r : Except Error α}

/-- The policy is part of what an attempt only reads. -/
def KeepsPolicy (attempt : Attempt Call Answer σ Error α) : Prop :=
  ∀ s tr r s' tr', Prog.Ends AnyAnswer (attempt.run s) tr (r, s') tr' →
    (HasLink.link s').policy = (HasLink.link s).policy

theorem Advances.waitsFor {log : List Event} {r : Except Error Unit}
    (h : Advances AnyAnswer attempt (.reconnected r) s tr s₁ (tr ++ log)) :
    WaitsFor (HasLink.link s).policy.timeout log := by
  cases h with
  | reconnected hends =>
    have hwp : Act.wp AnyAnswer (fun _ _ => True)
        (onLinkM reconnect : Attempt Call Answer σ Error Unit).run
        (fun _ _ tr' => Waited (HasLink.link s).policy.schedule tr tr') s tr := by
      rw [Attempt.wp_run, wp_onLinkM]
      exact reconnect_waited
    have hwaited := Act.wp_ends hwp hends
    exact hwaited.waitsFor

theorem Advances.policy {step : RecoveryStep α} (hkeep : KeepsPolicy attempt)
    (h : Advances AnyAnswer attempt step s tr s₁ tr') :
    (HasLink.link s₁).policy = (HasLink.link s).policy := by
  have hdoes := h.does
  rcases step with _ | r | _ | (err | u)
  · rw [show HasLink.link s₁ = HasLink.link s from hdoes]
  · cases h with
    | attempt _ hends => exact hkeep _ _ _ _ _ hends
  · rw [show HasLink.link s₁ = (HasLink.link s).invalidateHandles from hdoes]
    rfl
  · obtain ⟨reason, hl⟩ := hdoes
    rw [hl]
    rfl
  · obtain ⟨device, infos, hl⟩ := hdoes
    rw [hl]
    rfl

/-- Every reconnect of a call has the same window. -/
theorem Waits.waitsFor (hkeep : KeepsPolicy attempt) (h : Waits attempt s tr steps logs s' tr') :
    ∀ log ∈ logs, WaitsFor (HasLink.link s).policy.timeout log := by
  induction h with
  | nil => nofun
  | reconnected ht _ ih =>
    intro log hlog
    rcases List.mem_cons.mp hlog with rfl | hlog
    · exact ht.waitsFor
    · exact ht.policy hkeep ▸ ih log hlog
  | other _ ht _ ih => exact fun log hlog => ht.policy hkeep ▸ ih log hlog

theorem Waits.length (h : Waits attempt s tr steps logs s' tr') :
    logs.length = steps.countP fun x => x.2.isReconnect := by
  induction h with
  | nil => rfl
  | reconnected _ _ ih => rw [List.length_cons, ih, List.countP_cons_of_pos rfl]
  | @other s _ _ _ _ _ step rest _ hno _ _ ih =>
    have hstep : ¬ step.isReconnect = true := by
      cases step with
      | reconnected outcome => exact absurd rfl (hno outcome)
      | _ => exact Bool.false_ne_true
    rw [ih]
    have hcons := List.countP_cons_of_neg (p := fun x : σ × RecoveryStep α => x.2.isReconnect)
      (a := (s, step)) (l := rest) hstep
    exact hcons.symm

omit [HasLink σ] in
/-- A round reconnects once at most. -/
theorem Rounds.countP_isReconnect {n : Nat} (h : Rounds n steps r) :
    steps.countP (fun x => x.2.isReconnect) ≤ n := by
  induction h with
  | exhausted => exact Nat.le_refl 0
  | done h =>
    rw [h.countP_isReconnect]
    exact Nat.zero_le _
  | gaveUp h =>
    rw [List.countP_append, h.countP_isReconnect, List.countP_cons_of_pos rfl]
    simp
  | resumed h _ ih =>
    rw [List.countP_append, h.countP_isReconnect, List.countP_cons_of_pos rfl, Nat.zero_add]
    exact Nat.succ_le_succ ih

/-- Every run can be taken apart so. -/
theorem Steps.waits (h : Steps AnyAnswer attempt s tr steps s' tr') :
    ∃ logs, Waits attempt s tr steps logs s' tr' := by
  induction h with
  | nil => exact ⟨[], .nil⟩
  | @cons s s₁ s' tr tr₁ tr' step rest ht _ ih =>
    obtain ⟨logs, hw⟩ := ih
    by_cases hrec : ∃ r, step = .reconnected r
    · obtain ⟨r, rfl⟩ := hrec
      have hlog : ∃ log, tr₁ = tr ++ log := by
        cases ht with
        | reconnected hends =>
          have hwp : Prog.wp AnyAnswer (fun _ _ => True)
              ((onLinkM reconnect : Attempt Call Answer σ Error Unit).run s) (fun _ _ => True) tr :=
            Prog.wp_of_forall _ (fun _ _ => trivial) tr
          obtain ⟨log, h, -⟩ := ends_log hwp hends
          exact ⟨log, h⟩
      obtain ⟨log, rfl⟩ := hlog
      exact ⟨log :: logs, .reconnected ht hw⟩
    · exact ⟨logs, .other (fun r he => hrec ⟨r, he⟩) ht hw⟩

theorem backoffSum_pos {n : Nat} (h : 0 < n) : 0 < backoffSum n := by
  obtain ⟨n, rfl⟩ := Nat.exists_eq_succ_of_ne_zero h.ne'
  unfold backoffSum
  rw [List.range_succ_eq_map, List.map_cons, List.sum_cons]
  exact Nat.add_pos_left (by decide) _

/-- A second wait leaves no room for one that is cut short. -/
theorem sum_le_of_sum_min_le {timeout a : Nat} {waits : List Nat} (ha : 0 < a)
    (hpos : ∀ x ∈ waits, 0 < x) (h : a + (waits.map (min timeout)).sum ≤ timeout) :
    a + waits.sum ≤ timeout := by
  induction waits generalizing a with
  | nil => exact h
  | cons x waits ih =>
    rw [List.map_cons, List.sum_cons] at h
    have hx : min timeout x = x := by omega
    rw [List.sum_cons, ← Nat.add_assoc]
    refine ih (Nat.add_pos_left ha x) (fun y hy => hpos y (List.mem_cons_of_mem x hy)) ?_
    rw [hx] at h
    omega

theorem sum_min_le {timeout : Nat} {waits : List Nat} (h : waits.sum ≤ timeout) :
    (waits.map (min timeout)).sum ≤ timeout := by
  have hle : (waits.map (min timeout)).sum ≤ (waits.map id).sum :=
    List.sum_le_sum fun x _ => Nat.min_le_right timeout x
  rw [List.map_id] at hle
  exact hle.trans h

/-- When waits of a window each fit into one of it. -/
theorem sum_min_le_iff {timeout : Nat} {waits : List Nat} (hpos : 0 < timeout → ∀ x ∈ waits, 0 < x)
    (hoff : timeout = 0 → ∀ x ∈ waits, x = 0) :
    (waits.map (min timeout)).sum ≤ timeout ↔ waits.length ≤ 1 ∨ waits.sum ≤ timeout := by
  rcases Nat.eq_zero_or_pos timeout with hzero | htimeout
  · have hsum : waits.sum ≤ timeout := by
      rw [List.sum_eq_zero (hoff hzero)]
      exact Nat.zero_le _
    exact ⟨fun _ => .inr hsum, fun _ => sum_min_le hsum⟩
  · match waits with
    | [] => simp
    | [x] => exact ⟨fun _ => .inl (Nat.le_refl 1), fun _ => Nat.min_le_left timeout x⟩
    | x :: y :: rest =>
      have hx := hpos htimeout x List.mem_cons_self
      have hy := hpos htimeout y (List.mem_cons_of_mem x List.mem_cons_self)
      constructor
      · intro h
        refine .inr ?_
        rw [List.map_cons, List.sum_cons] at h
        have hrest := sum_le_of_sum_min_le (Nat.lt_min.mpr ⟨htimeout, hx⟩)
          (fun z hz => hpos htimeout z (List.mem_cons_of_mem x hz)) h
        rw [List.sum_cons] at hrest
        rw [List.sum_cons, List.sum_cons]
        omega
      · rintro (h | h)
        · exact absurd h (by simp)
        · exact sum_min_le h

/-- Where the attempts wait for nothing, the pauses of the whole call are those. -/
theorem Waits.total (h : Waits attempt s tr steps logs s' tr')
    (hquiet : ∀ s tr, (attempt.run s).wp AnyAnswer (fun _ c => c.isRecovery = false)
      (fun _ _ => True) tr) : slept tr' = slept tr + (logs.map slept).sum := by
  have hnone : ∀ {log : List Event}, (∀ ev ∈ log, ev.call.isRecovery = false) → slept log = 0 := by
    intro log hlog
    refine List.sum_eq_zero fun x hx => ?_
    obtain ⟨⟨c, a⟩, hev, rfl⟩ := List.mem_map.mp hx
    have hc := hlog _ hev
    cases c with
    | sleep delay => cases hc
    | _ => rfl
  induction h with
  | nil => rfl
  | reconnected _ _ ih => rw [ih, slept_append, List.map_cons, List.sum_cons, Nat.add_assoc]
  | @other s _ _ tr tr₁ _ _ _ _ hno ht _ ih =>
    have hstep : slept tr₁ = slept tr := by
      cases ht with
      | unplugged hr =>
        cases hr
        rw [slept_append]
        rfl
      | attempt hr hends =>
        cases hr
        obtain ⟨log, rfl, hlog⟩ := ends_log (hquiet _ _) hends
        rw [slept_append, slept_append, hnone hlog]
        rfl
      | invalidated hends =>
        have hwp : Act.wp AnyAnswer (fun _ _ => True) (onLink invalidateHandles : Act Call Answer σ Unit)
            (fun _ _ tr' => slept tr' = slept tr) s tr := by
          rw [wp_onLink]
          unfold invalidateHandles
          rw [Act.wp_bind]
          refine wp_call.mpr ⟨trivial, fun _ _ hr => ?_⟩
          cases hr
          exact slept_append tr _
        have heq := Act.wp_ends hwp hends
        exact heq
      | reconnected _ => exact absurd rfl (hno _)
    rw [ih, hstep]

theorem keepsPolicy_listIntoTable (parentInode : Nat) : KeepsPolicy (listIntoTable parentInode) := by
  intro l tr r l' tr' hends
  show l'.policy = l.policy
  rw [onlyInodes_of_ends hends]

/-- The pauses of a call stay within the window when it reconnects once, or when the
pauses that belong to all its tries do; they never exceed `MAX_ATTEMPTS` windows. -/
theorem waits_window_iff (hkeep : KeepsPolicy attempt)
    (h : Prog.Ends AnyAnswer ((withRecovery attempt).run s) tr (r, s') tr') :
    (∃ steps logs, Waits attempt s tr steps logs s' tr' ∧ Rounds MAX_ATTEMPTS steps r) ∧
    ∀ steps logs, Waits attempt s tr steps logs s' tr' → Rounds MAX_ATTEMPTS steps r →
      ((logs.map slept).sum ≤ (HasLink.link s).policy.timeout ↔
        logs.length ≤ 1 ∨
          (logs.map fun log => backoffSum (tries log)).sum ≤ (HasLink.link s).policy.timeout) ∧
      (logs.map slept).sum ≤ MAX_ATTEMPTS * (HasLink.link s).policy.timeout := by
  obtain ⟨steps, hsteps, hrounds⟩ := withRecovery_recovers h
  obtain ⟨logs, hwaits⟩ := hsteps.waits
  refine ⟨⟨steps, logs, hwaits, hrounds⟩, fun steps logs hwaits hrounds => ?_⟩
  have hfor := hwaits.waitsFor hkeep
  have hslept : logs.map slept =
      (logs.map fun log => backoffSum (tries log)).map (min (HasLink.link s).policy.timeout) := by
    rw [List.map_map]
    exact List.map_congr_left fun log hlog => (hfor log hlog).slept
  constructor
  · rw [hslept, sum_min_le_iff, List.length_map]
    · intro hpos x hx
      obtain ⟨log, hlog, rfl⟩ := List.mem_map.mp hx
      exact backoffSum_pos ((hfor log hlog).tried hpos)
    · intro hzero x hx
      obtain ⟨log, hlog, rfl⟩ := List.mem_map.mp hx
      rw [(hfor log hlog).off hzero]
      rfl
  · have hlen : logs.length ≤ MAX_ATTEMPTS := hwaits.length ▸ hrounds.countP_isReconnect
    have hsum : (logs.map slept).sum ≤ (logs.map slept).length * (HasLink.link s).policy.timeout := by
      refine List.sum_le_card_nsmul _ _ fun x hx => ?_
      obtain ⟨log, hlog, rfl⟩ := List.mem_map.mp hx
      rw [(hfor log hlog).slept]
      exact Nat.min_le_left _ _
    rw [List.length_map] at hsum
    exact hsum.trans (Nat.mul_le_mul_right _ hlen)

end Waits

/-- The listing of the card, across one loss. -/
theorem waits_window_iff_reopened : ∃ steps logs l' tr',
    Waits (listIntoTable 2) cardLink [] steps logs l' tr' ∧ Rounds MAX_ATTEMPTS steps (.ok ()) ∧
      (logs.map slept).sum ≤ MAX_ATTEMPTS * 1000 := by
  have ht : (((withRecovery (listIntoTable 2)).run cardLink).runWith (script listingDropped) []).any
      (fun x => x.1.1.isOk) = true := by rfl
  obtain ⟨⟨⟨r, l'⟩, tr'⟩, hrun, hok⟩ := (Option.any_eq_true _ _).mp ht
  obtain ⟨⟨steps, logs, hwaits, hrounds⟩, hall⟩ := waits_window_iff (keepsPolicy_listIntoTable 2)
    (Prog.runWith_ends (anyAnswer_of_script listingDropped) hrun)
  rcases r with err | u
  · cases hok
  · exact ⟨steps, logs, l', tr', hwaits, hrounds, (hall steps logs hwaits hrounds).2⟩

/-- A phone that needs a second to come back, and is gone again when a folder is
listed on it. -/
def listingLate (tr : List Event) : (c : Call) → Option (Answer c)
  | .storages _ => some (.ok [⟨⟨1⟩, "Card", 100, 50⟩])
  | .listObjects storage _ => some (if storage.session < 1250 then .error .deviceReset else .ok [])
  | .openDevice => some (if slept tr < 1000 then .error .noDevice else .ok ⟨slept tr, true, true⟩)
  | c => undisturbed c

/-- The listing of the card succeeds on it, after more than the window of a second. -/
theorem waits_late : ∃ steps logs l' tr',
    Waits (listIntoTable 2) cardLink [] steps logs l' tr' ∧ Rounds MAX_ATTEMPTS steps (.ok ()) ∧
      cardLink.policy = .fromSecs 1 ∧ cardLink.policy.timeout < (logs.map slept).sum := by
  have ht : (((withRecovery (listIntoTable 2)).run cardLink).runWith (script listingLate) []).any
      (fun x => x.1.1.isOk && slept x.2 == 1250) = true := by rfl
  obtain ⟨⟨⟨r, l'⟩, tr'⟩, hrun, htest⟩ := (Option.any_eq_true _ _).mp ht
  obtain ⟨hok, hslept⟩ := Bool.and_eq_true_iff.mp htest
  obtain ⟨steps, hsteps, hrounds⟩ :=
    withRecovery_recovers (Prog.runWith_ends (anyAnswer_of_script listingLate) hrun)
  obtain ⟨logs, hwaits⟩ := hsteps.waits
  have htotal := hwaits.total fun l tr => (Attempt.wp_run _ fun _ _ _ => True).mpr
    (Attempt.wp_mono (listIntoTable_onlyInodes 2) (fun _ _ _ _ => trivial) fun _ _ _ _ => trivial)
  rw [eq_of_beq hslept, show slept [] = 0 from rfl, Nat.zero_add] at htotal
  rcases r with err | u
  · cases hok
  · refine ⟨steps, logs, l', tr', hwaits, hrounds, rfl, ?_⟩
    rw [← htotal]
    decide

end MtpMount
