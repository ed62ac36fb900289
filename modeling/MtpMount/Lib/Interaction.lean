import Mathlib.Logic.Relation

/-!
# Programs that call an environment

A `Prog` either is done or makes a call and continues with the answer. The
environment is a relation `Answers`: from an environment state, to a call, it
may give any of the answers it relates, and moves to a new state. Nothing here
fixes what the calls are.

* `Prog.wp R G p Q e`: from `e`, every call of `p` meets the guard `G` when it
  is made, and every run that ends does so in `Q`;
* `Prog.wp_iff`: this is exactly a statement about the calls made (`Makes`)
  and the ends reached (`Ends`), runs cut short included;
* `Act` threads a program state, `Attempt` adds failure; each has its own `wp`
  with one rule for every operation;
* `Served`: handlers run one after another on one state, with the invariant
  rule `Served.invariant`.

A call whose answer type is empty never returns: it stands for a panic or for
a loop that does not end.
-/

namespace Interaction

/-- A program over the calls `C`, where call `c` is answered in `A c`. -/
inductive Prog (C : Type) (A : C → Type) (α : Type) : Type
  | done (a : α)
  | call (c : C) (k : A c → Prog C A α)

variable {C : Type} {A : C → Type} {E E' σ τ ε ι ρ α β : Type}

/-- What an environment in one state may answer, and the state it moves to. -/
abbrev Answers (C : Type) (A : C → Type) (E : Type) := E → (c : C) → A c → E → Prop

namespace Prog

def bind : Prog C A α → (α → Prog C A β) → Prog C A β
  | .done a, f => f a
  | .call c k, f => .call c fun a => (k a).bind f

instance : Monad (Prog C A) where
  pure := .done
  bind := Prog.bind

theorem bind_done (p : Prog C A α) : p.bind .done = p := by
  induction p with
  | done a => rfl
  | call c k ih => simp only [bind, ih]

theorem bind_assoc (p : Prog C A α) {γ : Type} (f : α → Prog C A β) (g : β → Prog C A γ) :
    (p.bind f).bind g = p.bind fun a => (f a).bind g := by
  induction p with
  | done a => rfl
  | call c k ih => simp only [bind, ih]

instance : LawfulMonad (Prog C A) :=
  LawfulMonad.mk' _ bind_done (fun _ _ => rfl) fun p f g => bind_assoc p f g

/-- Every call meets `G`, and every end is in `Q`. -/
def wp (R : Answers C A E) (G : E → C → Prop) : Prog C A α → (α → E → Prop) → E → Prop
  | .done a, Q, e => Q a e
  | .call c k, Q, e => G e c ∧ ∀ a e', R e c a e' → (k a).wp R G Q e'

/-- Some run of `p` from `e` ends with `a` in `e'`. -/
inductive Ends (R : Answers C A E) : Prog C A α → E → α → E → Prop
  | done (a : α) (e : E) : Ends R (.done a) e a e
  | call {c : C} {k : A c → Prog C A α} {e e₁ e' : E} {x : A c} {a : α} :
      R e c x e₁ → Ends R (k x) e₁ a e' → Ends R (.call c k) e a e'

/-- Some run of `p` from `e` makes the call `c` in `e'`, whether or not that run ends. -/
inductive Makes (R : Answers C A E) : Prog C A α → E → C → E → Prop
  | here (c : C) (k : A c → Prog C A α) (e : E) : Makes R (.call c k) e c e
  | later {c d : C} {k : A c → Prog C A α} {e e₁ e' : E} {x : A c} :
      R e c x e₁ → Makes R (k x) e₁ d e' → Makes R (.call c k) e d e'

theorem wp_iff (R : Answers C A E) (G : E → C → Prop) (p : Prog C A α)
    (Q : α → E → Prop) (e : E) :
    p.wp R G Q e ↔
      (∀ c e', Makes R p e c e' → G e' c) ∧ ∀ a e', Ends R p e a e' → Q a e' := by
  induction p generalizing e with
  | done a =>
    constructor
    · intro h
      constructor
      · intro c e' hm
        cases hm
      · intro b e' he
        cases he
        exact h
    · intro h
      exact h.2 a e (.done a e)
  | call c k ih =>
    constructor
    · rintro ⟨hc, hk⟩
      refine ⟨fun d e' hm => ?_, fun b e' he => ?_⟩
      · cases hm with
        | here => exact hc
        | later hr hm => exact ((ih _ _).mp (hk _ _ hr)).1 _ _ hm
      · cases he with
        | call hr he => exact ((ih _ _).mp (hk _ _ hr)).2 _ _ he
    · rintro ⟨hm, he⟩
      refine ⟨hm c e (.here c k e), fun x e₁ hr => (ih _ _).mpr ⟨?_, ?_⟩⟩
      · exact fun d e' h => hm d e' (.later hr h)
      · exact fun a e' h => he a e' (.call hr h)

theorem wp_mono {R : Answers C A E} {G G' : E → C → Prop} {p : Prog C A α}
    {Q Q' : α → E → Prop} {e : E} (h : p.wp R G Q e)
    (hG : ∀ e c, G e c → G' e c) (hQ : ∀ a e', Q a e' → Q' a e') : p.wp R G' Q' e := by
  induction p generalizing e with
  | done a => exact hQ a e h
  | call c k ih => exact ⟨hG _ _ h.1, fun x e' hr => ih x (h.2 x e' hr)⟩

theorem wp_bind (R : Answers C A E) (G : E → C → Prop) (p : Prog C A α)
    (f : α → Prog C A β) (Q : β → E → Prop) (e : E) :
    (p.bind f).wp R G Q e ↔ p.wp R G (fun a e' => (f a).wp R G Q e') e := by
  induction p generalizing e with
  | done a => exact Iff.rfl
  | call c k ih =>
    simp only [bind, wp]
    exact and_congr_right fun _ =>
      forall_congr' fun x => forall_congr' fun e' => imp_congr_right fun _ => ih x e'

/-- What a program whose calls are allowed may ask. -/
theorem wp_makes {R : Answers C A E} {G : E → C → Prop} {p : Prog C A α} {Q : α → E → Prop}
    {e e' : E} {c : C} (h : p.wp R G Q e) (hm : Makes R p e c e') : G e' c :=
  ((wp_iff _ _ _ _ _).mp h).1 c e' hm

/-- What holds of every result and every environment, when nothing is asked of the calls. -/
theorem wp_of_forall {R : Answers C A E} (p : Prog C A α) {Q : α → E → Prop} (hQ : ∀ a e, Q a e)
    (e : E) : p.wp R (fun _ _ => True) Q e :=
  (wp_iff _ _ _ _ _).mpr ⟨fun _ _ _ => trivial, fun a e' _ => hQ a e'⟩

theorem wp_and {R : Answers C A E} {G G' : E → C → Prop} {p : Prog C A α}
    {Q Q' : α → E → Prop} {e : E} (h : p.wp R G Q e) (h' : p.wp R G' Q' e) :
    p.wp R (fun e c => G e c ∧ G' e c) (fun a e' => Q a e' ∧ Q' a e') e := by
  induction p generalizing e with
  | done a => exact ⟨h, h'⟩
  | call c k ih =>
    exact ⟨⟨h.1, h'.1⟩, fun x e' hr => ih x (h.2 x e' hr) (h'.2 x e' hr)⟩

/-- The run against an environment that computes its answers; `none` when it has
no answer to a call. -/
def runWith (serve : E → (c : C) → Option (A c × E)) : Prog C A α → E → Option (α × E)
  | .done a, e => some (a, e)
  | .call c k, e =>
    match serve e c with
    | some (a, e') => (k a).runWith serve e'
    | none => none

/-- The answers may be right only in the states `I` that the run comes through. -/
theorem runWith_ends_of {R : Answers C A E} {serve : E → (c : C) → Option (A c × E)} {I : E → Prop}
    (hR : ∀ e c a e', I e → serve e c = some (a, e') → R e c a e' ∧ I e') {p : Prog C A α}
    {e e' : E} {a : α} (hi : I e) (h : p.runWith serve e = some (a, e')) : Ends R p e a e' := by
  induction p generalizing e with
  | done b =>
    cases h
    exact .done _ _
  | call c k ih =>
    rw [runWith] at h
    split at h
    · obtain ⟨hr, hi'⟩ := hR _ _ _ _ hi ‹_›
      exact .call hr (ih _ hi' h)
    · cases h

theorem runWith_ends {R : Answers C A E} {serve : E → (c : C) → Option (A c × E)}
    (hR : ∀ e c a e', serve e c = some (a, e') → R e c a e') {p : Prog C A α} {e e' : E} {a : α}
    (h : p.runWith serve e = some (a, e')) : Ends R p e a e' :=
  runWith_ends_of (R := R) (I := fun _ => True) (fun _ _ _ _ _ hs => ⟨hR _ _ _ _ hs, trivial⟩)
    trivial h

theorem runWith_keeps {serve : E → (c : C) → Option (A c × E)} {I : E → Prop}
    (hI : ∀ e c a e', I e → serve e c = some (a, e') → I e') {p : Prog C A α} {e e' : E} {a : α}
    (hi : I e) (h : p.runWith serve e = some (a, e')) : I e' := by
  induction p generalizing e with
  | done b =>
    cases h
    exact hi
  | call c k ih =>
    rw [runWith] at h
    split at h
    · exact ih _ (hI _ _ _ _ hi ‹_›) h
    · cases h

/-- The call that this run makes after `n` others, and where. -/
def callAt (serve : E → (c : C) → Option (A c × E)) : Nat → Prog C A α → E → Option (C × E)
  | _, .done _, _ => none
  | 0, .call c _, e => some (c, e)
  | n + 1, .call c k, e =>
    match serve e c with
    | some (a, e') => (k a).callAt serve n e'
    | none => none

theorem callAt_makes {R : Answers C A E} {serve : E → (c : C) → Option (A c × E)}
    (hR : ∀ e c a e', serve e c = some (a, e') → R e c a e') {n : Nat} {p : Prog C A α}
    {e e' : E} {c : C} (h : p.callAt serve n e = some (c, e')) : Makes R p e c e' := by
  induction p generalizing n e with
  | done b => cases n <;> cases h
  | call d k ih =>
    cases n with
    | zero =>
      cases h
      exact .here _ _ _
    | succ n =>
      rw [callAt] at h
      split at h
      · exact .later (hR _ _ _ _ ‹_›) (ih _ h)
      · cases h

end Prog

/-! ## Programs with a state -/

/-- A program that also reads and writes a state of its own. -/
abbrev Act (C : Type) (A : C → Type) (σ : Type) := StateT σ (Prog C A)

/-- Makes one call. -/
def perform (c : C) : Act C A σ (A c) := fun s => .call c fun a => .done (a, s)

namespace Act

/-- Runs a program on a part of the state. -/
def focus (part : σ → τ) (put : σ → τ → σ) (x : Act C A τ α) : Act C A σ α :=
  fun s => (x (part s)).bind fun r => .done (r.1, put s r.2)

def wp (R : Answers C A E) (G : E → C → Prop) (x : Act C A σ α)
    (Q : α → σ → E → Prop) (s : σ) (e : E) : Prop :=
  Prog.wp R G (x s) (fun r e' => Q r.1 r.2 e') e

section Rules

variable {R : Answers C A E} {G : E → C → Prop} {Q : α → σ → E → Prop} {s : σ} {e : E}

theorem wp_mono {x : Act C A σ α} {Q' : α → σ → E → Prop} (h : wp R G x Q s e)
    (hQ : ∀ a s' e', Q a s' e' → Q' a s' e') : wp R G x Q' s e :=
  Prog.wp_mono h (fun _ _ h => h) fun r e' => hQ r.1 r.2 e'

theorem wp_and {x : Act C A σ α} {G' : E → C → Prop} {Q' : α → σ → E → Prop} (h : wp R G x Q s e)
    (h' : wp R G' x Q' s e) : wp R G x (fun a s' e' => Q a s' e' ∧ Q' a s' e') s e :=
  Prog.wp_mono (Prog.wp_and h h') (fun _ _ h => h.1) fun _ _ h => h

@[simp] theorem wp_pure (a : α) : wp R G (pure a) Q s e ↔ Q a s e := Iff.rfl

@[simp] theorem wp_bind (x : Act C A σ β) (f : β → Act C A σ α) :
    wp R G (x >>= f) Q s e ↔ wp R G x (fun b s' e' => wp R G (f b) Q s' e') s e :=
  Prog.wp_bind R G (x s) (fun r => f r.1 r.2) (fun r e' => Q r.1 r.2 e') e

@[simp] theorem wp_map (x : Act C A σ β) (f : β → α) :
    wp R G (f <$> x) Q s e ↔ wp R G x (fun b s' e' => Q (f b) s' e') s e :=
  Prog.wp_bind R G (x s) (fun r => .done (f r.1, r.2)) (fun r e' => Q r.1 r.2 e') e

@[simp] theorem wp_get {Q : σ → σ → E → Prop} : wp R G (get : Act C A σ σ) Q s e ↔ Q s s e :=
  Iff.rfl

@[simp] theorem wp_set {Q : PUnit → σ → E → Prop} (t : σ) :
    wp R G (set t : Act C A σ PUnit) Q s e ↔ Q ⟨⟩ t e := Iff.rfl

@[simp] theorem wp_modify {Q : PUnit → σ → E → Prop} (f : σ → σ) :
    wp R G (modify f : Act C A σ PUnit) Q s e ↔ Q ⟨⟩ (f s) e := Iff.rfl

@[simp] theorem wp_modifyGet (f : σ → α × σ) :
    wp R G (modifyGet f : Act C A σ α) Q s e ↔ Q (f s).1 (f s).2 e := Iff.rfl

@[simp] theorem wp_perform (c : C) {Q : A c → σ → E → Prop} :
    wp R G (perform c) Q s e ↔ G e c ∧ ∀ a e', R e c a e' → Q a s e' := Iff.rfl

@[simp] theorem wp_focus (part : σ → τ) (put : σ → τ → σ) (x : Act C A τ α) :
    wp R G (focus part put x) Q s e ↔
      wp R G x (fun a t e' => Q a (put s t) e') (part s) e :=
  Prog.wp_bind R G (x (part s)) (fun r => .done (r.1, put s r.2)) (fun r e' => Q r.1 r.2 e') e

end Rules

/-- What a run that ends ends in. -/
theorem wp_ends {R : Answers C A E} {G : E → C → Prop} {x : Act C A σ α}
    {Q : α → σ → E → Prop} {s s' : σ} {e e' : E} {a : α} (h : wp R G x Q s e)
    (he : Prog.Ends R (x s) e (a, s') e') : Q a s' e' :=
  ((Prog.wp_iff _ _ _ _ _).mp h).2 _ _ he

end Act

/-! ## Programs that may fail -/

/-- A program that may stop with an error; its state survives the error. -/
abbrev Attempt (C : Type) (A : C → Type) (σ ε : Type) := ExceptT ε (Act C A σ)

namespace Attempt

/-- Runs a program to its end, be that a result or an error. -/
def outcome (x : Attempt C A σ ε α) : Attempt C A σ ε (Except ε α) := monadLift x.run

/-- `Q` for the results, `X` for the errors. -/
def wp (R : Answers C A E) (G : E → C → Prop) (x : Attempt C A σ ε α)
    (Q : α → σ → E → Prop) (X : ε → σ → E → Prop) (s : σ) (e : E) : Prop :=
  Act.wp R G x.run (fun r s' e' => match r with
    | .ok a => Q a s' e'
    | .error err => X err s' e') s e

section Rules

variable {R : Answers C A E} {G : E → C → Prop} {Q : α → σ → E → Prop}
  {X : ε → σ → E → Prop} {s : σ} {e : E}

theorem wp_run (x : Attempt C A σ ε α) (Q : Except ε α → σ → E → Prop) :
    Act.wp R G x.run Q s e ↔
      wp R G x (fun a => Q (.ok a)) (fun err => Q (.error err)) s e := by
  constructor
  · intro h
    refine Act.wp_mono h ?_
    rintro (err | a) s' e' h'
    · exact h'
    · exact h'
  · intro h
    refine Act.wp_mono h ?_
    rintro (err | a) s' e' h'
    · exact h'
    · exact h'

@[simp] theorem wp_mk (x : Act C A σ (Except ε α)) :
    wp R G (ExceptT.mk x) Q X s e ↔ Act.wp R G x (fun r s' e' => match r with
      | .ok a => Q a s' e'
      | .error err => X err s' e') s e := Iff.rfl

theorem wp_mono {x : Attempt C A σ ε α} {Q' : α → σ → E → Prop} {X' : ε → σ → E → Prop}
    (h : wp R G x Q X s e) (hQ : ∀ a s' e', Q a s' e' → Q' a s' e')
    (hX : ∀ err s' e', X err s' e' → X' err s' e') : wp R G x Q' X' s e := by
  refine Act.wp_mono h ?_
  rintro (err | a) s' e' h'
  · exact hX err s' e' h'
  · exact hQ a s' e' h'

theorem wp_of_forall (x : Attempt C A σ ε α) (hQ : ∀ a s e, Q a s e) (hX : ∀ err s e, X err s e) :
    wp R (fun _ _ => True) x Q X s e := by
  refine Prog.wp_of_forall _ ?_ e
  rintro ⟨err | a, s'⟩ e'
  · exact hX err s' e'
  · exact hQ a s' e'

theorem wp_and {x : Attempt C A σ ε α} {G' : E → C → Prop} {Q' : α → σ → E → Prop}
    {X' : ε → σ → E → Prop} (h : wp R G x Q X s e) (h' : wp R G' x Q' X' s e) :
    wp R G x (fun a s' e' => Q a s' e' ∧ Q' a s' e')
      (fun err s' e' => X err s' e' ∧ X' err s' e') s e := by
  refine Act.wp_mono (Act.wp_and h h') ?_
  rintro (err | a) s' e' h'
  · exact h'
  · exact h'

@[simp] theorem wp_pure (a : α) : wp R G (pure a) Q X s e ↔ Q a s e := Iff.rfl

@[simp] theorem wp_throw (err : ε) : wp R G (throw err) Q X s e ↔ X err s e := Iff.rfl

@[simp] theorem wp_get {Q : σ → σ → E → Prop} :
    wp R G (get : Attempt C A σ ε σ) Q X s e ↔ Q s s e := Iff.rfl

@[simp] theorem wp_modify {Q : PUnit → σ → E → Prop} (f : σ → σ) :
    wp R G (modify f : Attempt C A σ ε PUnit) Q X s e ↔ Q ⟨⟩ (f s) e := Iff.rfl

@[simp] theorem wp_lift (x : Act C A σ α) :
    wp R G (monadLift x) Q X s e ↔ Act.wp R G x Q s e :=
  Act.wp_map x (Except.ok (ε := ε))

@[simp] theorem wp_outcome (x : Attempt C A σ ε α) {Q : Except ε α → σ → E → Prop} :
    wp R G x.outcome Q X s e ↔
      wp R G x (fun a => Q (.ok a)) (fun err => Q (.error err)) s e := by
  rw [outcome, wp_lift, wp_run]

@[simp] theorem wp_bind (x : Attempt C A σ ε β) (f : β → Attempt C A σ ε α) :
    wp R G (x >>= f) Q X s e ↔ wp R G x (fun b s' e' => wp R G (f b) Q X s' e') X s e := by
  have hb : (x >>= f).run = x.run >>= fun r => match r with
      | .ok b => (f b).run
      | .error err => pure (.error err) := ExceptT.run_bind x f
  unfold wp
  rw [hb, Act.wp_bind]
  constructor
  · intro h
    refine Act.wp_mono h ?_
    rintro (err | b) s' e' h'
    · exact h'
    · exact h'
  · intro h
    refine Act.wp_mono h ?_
    rintro (err | b) s' e' h'
    · exact h'
    · exact h'

@[simp] theorem wp_set {Q : PUnit → σ → E → Prop} (t : σ) :
    wp R G (set t : Attempt C A σ ε PUnit) Q X s e ↔ Q ⟨⟩ t e := Iff.rfl

@[simp] theorem wp_modifyGet (f : σ → α × σ) :
    wp R G (modifyGet f : Attempt C A σ ε α) Q X s e ↔ Q (f s).1 (f s).2 e := Iff.rfl

@[simp] theorem wp_map (x : Attempt C A σ ε β) (f : β → α) :
    wp R G (f <$> x) Q X s e ↔ wp R G x (fun b s' e' => Q (f b) s' e') X s e := by
  rw [map_eq_pure_bind, wp_bind]
  exact Iff.rfl

/-- A loop with a value carried along: `I` speaks of the part of the list that is
done, of the value and of the states. -/
theorem wp_foldlM {xs : List β} {f : α → β → Attempt C A σ ε α}
    {I : List β → α → σ → E → Prop}
    (hstep : ∀ done x rest, xs = done ++ x :: rest → ∀ a s e, I done a s e →
      wp R G (f a x) (I (done ++ [x])) X s e)
    {a : α} (h : I [] a s e) : wp R G (xs.foldlM f a) (I xs) X s e := by
  suffices hgo : ∀ done rest, xs = done ++ rest → ∀ a s e, I done a s e →
      wp R G (rest.foldlM f a) (I xs) X s e from hgo [] xs rfl a s e h
  intro done rest
  induction rest generalizing done with
  | nil =>
    intro hxs a s e h
    rw [List.append_nil] at hxs
    rw [hxs]
    exact h
  | cons x rest ih =>
    intro hxs a s e h
    rw [List.foldlM_cons, wp_bind]
    refine wp_mono (hstep done x rest hxs a s e h) ?_ fun _ _ _ h' => h'
    intro a' s' e' h'
    exact ih (done ++ [x]) (by rw [hxs, List.append_assoc, List.singleton_append]) a' s' e' h'

end Rules

/-- What a run that ends well ends in. -/
theorem wp_ok {R : Answers C A E} {G : E → C → Prop} {x : Attempt C A σ ε α}
    {Q : α → σ → E → Prop} {X : ε → σ → E → Prop} {s s' : σ} {e e' : E} {a : α}
    (h : wp R G x Q X s e) (he : Prog.Ends R (x.run s) e (.ok a, s') e') : Q a s' e' :=
  ((Prog.wp_iff _ _ _ _ _).mp h).2 _ _ he

theorem wp_error {R : Answers C A E} {G : E → C → Prop} {x : Attempt C A σ ε α}
    {Q : α → σ → E → Prop} {X : ε → σ → E → Prop} {s s' : σ} {e e' : E} {err : ε}
    (h : wp R G x Q X s e) (he : Prog.Ends R (x.run s) e (.error err, s') e') : X err s' e' :=
  ((Prog.wp_iff _ _ _ _ _).mp h).2 _ _ he

/-! ### Invariants -/

/-- `x` keeps `I`, be its end a result or an error, and its calls meet `G`. -/
def Keeps (R : Answers C A E) (G : E → C → Prop) (I : σ → E → Prop)
    (x : Attempt C A σ ε α) : Prop :=
  ∀ s e, I s e → wp R G x (fun _ s' e' => I s' e') (fun _ s' e' => I s' e') s e

namespace Keeps

variable {R : Answers C A E} {G : E → C → Prop} {I : σ → E → Prop}

theorem pure (a : α) : Keeps R G I (pure a : Attempt C A σ ε α) := fun _ _ h => h

theorem throw (err : ε) : Keeps R G I (throw err : Attempt C A σ ε α) := fun _ _ h => h

theorem bind {x : Attempt C A σ ε β} {f : β → Attempt C A σ ε α} (hx : Keeps R G I x)
    (hf : ∀ b, Keeps R G I (f b)) : Keeps R G I (x >>= f) := fun s e h =>
  (wp_bind x f).mpr (wp_mono (hx s e h) (fun b s' e' h' => hf b s' e' h') fun _ _ _ h' => h')

theorem get : Keeps R G I (get : Attempt C A σ ε σ) := fun _ _ h => h

theorem modify {f : σ → σ} (hf : ∀ s e, I s e → I (f s) e) :
    Keeps R G I (modify f : Attempt C A σ ε PUnit) := fun s e h => hf s e h

theorem modifyGet {f : σ → α × σ} (hf : ∀ s e, I s e → I (f s).2 e) :
    Keeps R G I (modifyGet f : Attempt C A σ ε α) := fun s e h => hf s e h

theorem map {x : Attempt C A σ ε β} (hx : Keeps R G I x) (f : β → α) :
    Keeps R G I (f <$> x) := fun s e h => (wp_map x f).mpr (hx s e h)

/-- The continuation of a read may use what the invariant says of the state read. -/
theorem get_bind {f : σ → Attempt C A σ ε α}
    (hf : ∀ s e, I s e → wp R G (f s) (fun _ s' e' => I s' e') (fun _ s' e' => I s' e') s e) :
    Keeps R G I (MonadState.get >>= f) := fun s e h => (wp_bind _ f).mpr (hf s e h)

end Keeps

end Attempt

/-! ## Handlers run one after another -/

/-- `Served R handle ok p h q`: from `p`, the inputs of the history `h` were
handled in order, each in a state where `ok` allowed it, each handler ending
with the reply that `h` records, and `q` is the state afterwards. -/
inductive Served (R : Answers C A E) (handle : ι → Act C A σ ρ)
    (ok : List (ι × ρ) → σ → E → ι → Prop) (s₀ : σ) (e₀ : E) :
    List (ι × ρ) → σ → E → Prop
  | start : Served R handle ok s₀ e₀ [] s₀ e₀
  | next {h : List (ι × ρ)} {s s' : σ} {e e' : E} {i : ι} {r : ρ} :
      Served R handle ok s₀ e₀ h s e → ok h s e i →
      Prog.Ends R (handle i s) e (r, s') e' →
      Served R handle ok s₀ e₀ (h ++ [(i, r)]) s' e'

/-- What holds at the start and is kept by every handler holds in every state served. -/
theorem Served.invariant {R : Answers C A E} {handle : ι → Act C A σ ρ}
    {ok : List (ι × ρ) → σ → E → ι → Prop} {s₀ : σ} {e₀ : E} {h : List (ι × ρ)} {s : σ} {e : E}
    {G : E → C → Prop} {I : List (ι × ρ) → σ → E → Prop}
    (hr : Served R handle ok s₀ e₀ h s e) (h₀ : I [] s₀ e₀)
    (hs : ∀ h s e i, I h s e → ok h s e i →
      Act.wp R G (handle i) (fun r s' e' => I (h ++ [(i, r)]) s' e') s e) : I h s e := by
  induction hr with
  | start => exact h₀
  | next _ hok he ih => exact ((Prog.wp_iff _ _ _ _ _).mp (hs _ _ _ _ ih hok)).2 _ _ he

/-- Handles the inputs in order against an environment that computes its answers. -/
def serveAll (serve : E → (c : C) → Option (A c × E)) (handle : ι → Act C A σ ρ) :
    List (ι × ρ) → List ι → σ → E → Option (List (ι × ρ) × σ × E)
  | h, [], s, e => some (h, s, e)
  | h, i :: is, s, e =>
    match (handle i s).runWith serve e with
    | some ((r, s'), e') => serveAll serve handle (h ++ [(i, r)]) is s' e'
    | none => none

theorem Served.serveAll {R : Answers C A E} {handle : ι → Act C A σ ρ}
    {ok : List (ι × ρ) → σ → E → ι → Prop} {s₀ s s' : σ} {e₀ e e' : E} {h h' : List (ι × ρ)}
    {serve : E → (c : C) → Option (A c × E)}
    (hR : ∀ e c a e', serve e c = some (a, e') → R e c a e')
    {is : List ι} (hok : ∀ i ∈ is, ∀ h s e, ok h s e i) (hs : Served R handle ok s₀ e₀ h s e)
    (hr : Interaction.serveAll serve handle h is s e = some (h', s', e')) :
    Served R handle ok s₀ e₀ h' s' e' := by
  induction is generalizing h s e with
  | nil =>
    cases hr
    exact hs
  | cons i is ih =>
    rw [Interaction.serveAll] at hr
    split at hr
    · exact ih (fun j hj => hok j (List.mem_cons_of_mem i hj))
        (.next hs (hok i List.mem_cons_self _ _ _) (Prog.runWith_ends hR ‹_›)) hr
    · cases hr

/-- A run that is computed, with what its end was tested for. -/
theorem Served.of_test {R : Answers C A E} {handle : ι → Act C A σ ρ}
    {ok : List (ι × ρ) → σ → E → ι → Prop} {serve : E → (c : C) → Option (A c × E)}
    (hR : ∀ e c a e', serve e c = some (a, e') → R e c a e') {s₀ : σ} {e₀ : E} (is : List ι)
    (hok : ∀ i ∈ is, ∀ h s e, ok h s e i) (test : List (ι × ρ) × σ × E → Bool)
    (ht : (Interaction.serveAll serve handle [] is s₀ e₀).any test = true) :
    ∃ h s e, Served R handle ok s₀ e₀ h s e ∧ test (h, s, e) = true := by
  obtain ⟨⟨h, s, e⟩, hr, ht⟩ := (Option.any_eq_true _ _).mp ht
  exact ⟨h, s, e, .serveAll hR hok .start hr, ht⟩

/-- The same, where every input has to pass a check when its turn comes. -/
def serveChecked (serve : E → (c : C) → Option (A c × E)) (handle : ι → Act C A σ ρ)
    (check : List (ι × ρ) → ι → Bool) :
    List (ι × ρ) → List ι → σ → E → Option (List (ι × ρ) × σ × E)
  | h, [], s, e => some (h, s, e)
  | h, i :: is, s, e =>
    if check h i then
      match (handle i s).runWith serve e with
      | some ((r, s'), e') => serveChecked serve handle check (h ++ [(i, r)]) is s' e'
      | none => none
    else none

theorem Served.serveChecked_of {R : Answers C A E} {handle : ι → Act C A σ ρ}
    {ok : List (ι × ρ) → σ → E → ι → Prop} {s₀ s s' : σ} {e₀ e e' : E} {h h' : List (ι × ρ)}
    {serve : E → (c : C) → Option (A c × E)} {I : E → Prop}
    (hR : ∀ e c a e', I e → serve e c = some (a, e') → R e c a e' ∧ I e')
    {check : List (ι × ρ) → ι → Bool} (hok : ∀ h s e i, check h i = true → ok h s e i) {is : List ι}
    (hs : Served R handle ok s₀ e₀ h s e) (hi : I e)
    (hr : Interaction.serveChecked serve handle check h is s e = some (h', s', e')) :
    Served R handle ok s₀ e₀ h' s' e' := by
  induction is generalizing h s e with
  | nil =>
    cases hr
    exact hs
  | cons i is ih =>
    rw [Interaction.serveChecked] at hr
    split at hr
    · split at hr
      · rename_i hcheck _ _ _ _ hrun
        have hi' := Prog.runWith_keeps (fun e c a e' hi hs => (hR e c a e' hi hs).2) hi hrun
        exact ih (.next hs (hok _ _ _ _ hcheck) (Prog.runWith_ends_of hR hi hrun)) hi' hr
      · cases hr
    · cases hr

/-- A checked run that is computed, with what its end was tested for. The answers may be
right only in the states `I` that the run comes through. -/
theorem Served.of_checked_of {R : Answers C A E} {handle : ι → Act C A σ ρ}
    {ok : List (ι × ρ) → σ → E → ι → Prop} {serve : E → (c : C) → Option (A c × E)} {I : E → Prop}
    (hR : ∀ e c a e', I e → serve e c = some (a, e') → R e c a e' ∧ I e')
    (check : List (ι × ρ) → ι → Bool) (hok : ∀ h s e i, check h i = true → ok h s e i) {s₀ : σ}
    {e₀ : E} (hi : I e₀) (is : List ι) (test : List (ι × ρ) × σ × E → Bool)
    (ht : (Interaction.serveChecked serve handle check [] is s₀ e₀).any test = true) :
    ∃ h s e, Served R handle ok s₀ e₀ h s e ∧ test (h, s, e) = true := by
  obtain ⟨⟨h, s, e⟩, hr, ht⟩ := (Option.any_eq_true _ _).mp ht
  exact ⟨h, s, e, .serveChecked_of hR hok .start hi hr, ht⟩

/-- The same of answers that are right everywhere. -/
theorem Served.of_checked {R : Answers C A E} {handle : ι → Act C A σ ρ}
    {ok : List (ι × ρ) → σ → E → ι → Prop} {serve : E → (c : C) → Option (A c × E)}
    (hR : ∀ e c a e', serve e c = some (a, e') → R e c a e') (check : List (ι × ρ) → ι → Bool)
    (hok : ∀ h s e i, check h i = true → ok h s e i) {s₀ : σ} {e₀ : E} (is : List ι)
    (test : List (ι × ρ) × σ × E → Bool)
    (ht : (Interaction.serveChecked serve handle check [] is s₀ e₀).any test = true) :
    ∃ h s e, Served R handle ok s₀ e₀ h s e ∧ test (h, s, e) = true :=
  Served.of_checked_of (I := fun _ => True) (fun e c a e' _ hs => ⟨hR e c a e' hs, trivial⟩) check
    hok trivial is test ht

/-- A checked run that is computed, and one more input: what is tested are the
state it comes to and how it is handled there. -/
theorem Served.of_checked_then {R : Answers C A E} {handle : ι → Act C A σ ρ}
    {ok : List (ι × ρ) → σ → E → ι → Prop} {serve : E → (c : C) → Option (A c × E)}
    (hR : ∀ e c a e', serve e c = some (a, e') → R e c a e') (check : List (ι × ρ) → ι → Bool)
    (hok : ∀ h s e i, check h i = true → ok h s e i) {s₀ : σ} {e₀ : E} (is : List ι) (i : ι)
    (test : List (ι × ρ) × σ × E → (ρ × σ) × E → Bool)
    (ht : (Interaction.serveChecked serve handle check [] is s₀ e₀).any (fun t =>
      ((handle i t.2.1).runWith serve t.2.2).any (test t)) = true) :
    ∃ h s e r s' e', Served R handle ok s₀ e₀ h s e ∧ Prog.Ends R (handle i s) e (r, s') e' ∧
      test (h, s, e) ((r, s'), e') = true := by
  obtain ⟨h, s, e, hs, ht⟩ := Served.of_checked hR check hok is _ ht
  obtain ⟨⟨⟨r, s'⟩, e'⟩, hr, ht⟩ := (Option.any_eq_true _ _).mp ht
  exact ⟨h, s, e, r, s', e', hs, Prog.runWith_ends hR hr, ht⟩

end Interaction
