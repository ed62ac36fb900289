import MtpMount.Recovery

/-!
# Attempts that change what the next one finds

`withRecovery_wp` asks of an attempt that it keeps an invariant also when it
fails. A flush or a rename does not: a request may have taken effect although
it failed. `Recoverable` tells the two apart: `I n` holds before an attempt with
`n` rounds to come, `X n` after one that failed, and what lies between the
attempts leads back to `I`.
-/

namespace MtpMount

open Interaction

variable {E σ α : Type} {R : Answers Call Answer E} {G : E → Call → Prop} [HasLink σ]

/-- `Q` holds of a result and `Z` of the error that a run ends with. -/
structure Recoverable (R : Answers Call Answer E) (G : E → Call → Prop)
    (attempt : Attempt Call Answer σ Error α) (I : Nat → σ → E → Prop) (Q : α → σ → E → Prop)
    (X : Nat → Error → σ → E → Prop) (Z : Error → σ → E → Prop) : Prop where
  plug : ∀ {n s e}, I (n + 1) s e → G e .isUnplugged ∧ ∀ out e', R e .isUnplugged out e' →
    if out = true then X n .disconnected s e' else I (n + 1) s e'
  attempt : ∀ {n s e}, I (n + 1) s e → Attempt.wp R G attempt Q (X n) s e
  stale : ∀ {n s e err}, X n err s e → err.isStaleHandle = true →
    Act.wp R G (onLink invalidateHandles : Act Call Answer σ Unit) (fun _ => I (n + 1)) s e
  lost : ∀ {n s e err}, X n err s e → isLinkLost err = true →
    Attempt.wp R G (onLinkM reconnect : Attempt Call Answer σ Error Unit) (fun _ => I n) Z s e
  ended : ∀ {n s e err}, X n err s e → isLinkLost err = false → Z err s e
  exhausted : ∀ {s e}, I 0 s e → Z .disconnected s e

/-- A stale handle is no lost link. -/
theorem isLinkLost_of_stale {err : Error} (h : err.isStaleHandle = true) : isLinkLost err = false := by
  cases err with
  | staleHandle => rfl
  | _ => cases h

namespace Recoverable

variable {attempt : Attempt Call Answer σ Error α} {I : Nat → σ → E → Prop}
  {Q : α → σ → E → Prop} {X : Nat → Error → σ → E → Prop} {Z : Error → σ → E → Prop}
  (hrec : Recoverable R G attempt I Q X Z) {s : σ} {e : E}

/-- How a session with `n` rounds after it is left. -/
def Left (Q : α → σ → E → Prop) (X : Nat → Error → σ → E → Prop) (n : Nat) :
    Option (Except Error α) → σ → E → Prop
  | some (.ok a), s, e => Q a s e
  | some (.error err), s, e => X n err s e ∧ isLinkLost err = false
  | none, s, e => ∃ err, isLinkLost err = true ∧ X n err s e

include hrec

theorem turn_wp {n : Nat} {retry : Error → Act Call Answer σ (Option (Except Error α))}
    (hretry : ∀ err s e, err.isStaleHandle = true → X n err s e →
      Act.wp R G (retry err) (Left Q X n) s e) (h : I (n + 1) s e) :
    Act.wp R G (recoveryTurn attempt retry) (Left Q X n) s e := by
  unfold recoveryTurn
  rw [Act.wp_bind]
  obtain ⟨hG, hplug⟩ := hrec.plug h
  refine wp_call.mpr ⟨hG, fun out e₁ hr => ?_⟩
  have h₁ := hplug out e₁ hr
  cases out with
  | true => exact ⟨.disconnected, rfl, h₁⟩
  | false =>
    rw [if_neg Bool.false_ne_true, Act.wp_bind, Attempt.wp_run]
    refine Attempt.wp_mono (hrec.attempt h₁) (fun a s' e' hq => hq) fun err s' e' hx => ?_
    dsimp only
    split
    · exact hretry err s' e' ‹_› hx
    · split
      · rename_i hlost
        exact ⟨hx, by simpa using hlost⟩
      · rename_i hlost
        refine ⟨err, ?_, hx⟩
        simpa using hlost

theorem session_wp {n : Nat} (k : Nat) (h : I (n + 1) s e) :
    Act.wp R G (sessionLoop attempt k) (Left Q X n) s e := by
  induction k generalizing s e with
  | zero => exact hrec.turn_wp (fun err s e hst hx => ⟨hx, isLinkLost_of_stale hst⟩) h
  | succ k ih =>
    refine hrec.turn_wp (fun err s e hst hx => ?_) h
    rw [Act.wp_bind]
    exact Act.wp_mono (hrec.stale hx hst) fun _ s' e' h' => ih h'

theorem rounds_wp (n : Nat) (h : I n s e) :
    Attempt.wp R G (recoveryRounds attempt n) Q Z s e := by
  induction n generalizing s e with
  | zero => exact hrec.exhausted h
  | succ n ih =>
    unfold recoveryRounds
    rw [Attempt.wp_bind, Attempt.wp_lift]
    refine Act.wp_mono (hrec.session_wp MAX_STALE_RETRIES h) ?_
    rintro (_ | err | a) s₁ e₁ hleft
    · obtain ⟨err, hlost, hx⟩ := hleft
      dsimp only
      rw [Attempt.wp_bind]
      exact Attempt.wp_mono (hrec.lost hx hlost) (fun _ _ _ h' => ih h') fun _ _ _ h' => h'
    · exact hrec.ended hleft.1 hleft.2
    · exact hleft

/-- The rule for the whole recovery. -/
theorem wp (h : I MAX_ATTEMPTS s e) : Attempt.wp R G (withRecovery attempt) Q Z s e :=
  hrec.rounds_wp MAX_ATTEMPTS h

end Recoverable

/-- An invalidation is marked in the trace, and every handle is stale after it. -/
theorem invalidateHandles_does {s : σ} {e : E} {Q : Unit → σ → E → Prop} (hG : G e .invalidated)
    (hQ : ∀ u e', R e .invalidated u e' →
      Q () (HasLink.setLink s (HasLink.link s).invalidateHandles) e') :
    Act.wp R G (onLink invalidateHandles : Act Call Answer σ Unit) Q s e := by
  rw [wp_onLink]
  unfold invalidateHandles
  rw [Act.wp_bind]
  exact wp_call.mpr ⟨hG, hQ⟩

end MtpMount
