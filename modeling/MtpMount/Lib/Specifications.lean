import MtpMount.Lib.Interaction

/-!
# Objects that are served

A specification is an object without a program: what may be asked of it, what it
may reply, and what it is afterwards. A program implements it when it stays related
to the object and gives no other replies.

* `Specification.accepts_snoc`: histories grow at their ends;
* `Served.accepted`: an implementation that is asked what may be asked has a history
  of the object, and is related to the object that this history leads to.
-/

namespace Interaction

variable {C : Type} {A : C → Type} {α σ ι ρ E : Type}

/-- An object, by what it is, what it is asked and what it replies. -/
structure Specification (α ι ρ : Type) where
  asks : α → ι → Prop
  replies : α → ι × ρ → Prop
  next : α → ι × ρ → α

namespace Specification

variable (S : Specification α ι ρ)

/-- The object after a history. -/
def after (a : α) (h : List (ι × ρ)) : α := h.foldl S.next a

/-- Each reply of the history is one that the object may give then. -/
def Accepts : α → List (ι × ρ) → Prop
  | _, [] => True
  | a, x :: h => S.replies a x ∧ Accepts (S.next a x) h

variable {S} {a : α} {h : List (ι × ρ)}

theorem after_snoc (x : ι × ρ) : S.after a (h ++ [x]) = S.next (S.after a h) x := by
  rw [after, List.foldl_append]
  rfl

theorem accepts_snoc (x : ι × ρ) :
    S.Accepts a (h ++ [x]) ↔ S.Accepts a h ∧ S.replies (S.after a h) x := by
  induction h generalizing a with
  | nil => exact ⟨fun h => ⟨trivial, h.1⟩, fun h => ⟨h.2, trivial⟩⟩
  | cons y h ih =>
    show S.replies a y ∧ S.Accepts (S.next a y) (h ++ [x]) ↔
      (S.replies a y ∧ S.Accepts (S.next a y) h) ∧ S.replies (S.after (S.next a y) h) x
    rw [ih, and_assoc]

end Specification

/-- The history of an implementation is one of the object. -/
theorem Served.accepted {R : Answers C A E} {handle : ι → Act C A σ ρ} {S : Specification α ι ρ}
    {a : α} {s₀ s : σ} {e₀ e : E} {h : List (ι × ρ)} {G : E → C → Prop}
    {Rel : List (ι × ρ) → α → σ → E → Prop}
    (hr : Served R handle (fun h _ _ i => S.asks (S.after a h) i) s₀ e₀ h s e)
    (h₀ : Rel [] a s₀ e₀)
    (hs : ∀ h b s e i, Rel h b s e → S.asks b i → Act.wp R G (handle i)
      (fun r s' e' => S.replies b (i, r) ∧ Rel (h ++ [(i, r)]) (S.next b (i, r)) s' e') s e) :
    S.Accepts a h ∧ Rel h (S.after a h) s e := by
  refine hr.invariant (I := fun h s e => S.Accepts a h ∧ Rel h (S.after a h) s e) (G := G)
    ⟨trivial, h₀⟩ fun h s e i hi hasks => ?_
  refine Act.wp_mono (hs h _ s e i hi.2 hasks) ?_
  rintro r s' e' ⟨hreply, hrel⟩
  rw [Specification.accepts_snoc, Specification.after_snoc]
  exact ⟨⟨hi.1, hreply⟩, hrel⟩

end Interaction
