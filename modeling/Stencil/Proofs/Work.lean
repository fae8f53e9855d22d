import Mathlib.Tactic.Common
import Stencil.Session

set_option autoImplicit false

/-! # How work ends

`Work.Ends` says of work that starts in a session what holds when it returns, and of which
failure it may end otherwise; it goes through a program step by step. `Gives` says only that
all results have a property, in any monad, as far as what follows the work can tell.
-/

namespace Stencil

open Text

/-! ## Results that may be faults -/

section

variable {ε α β : Type} {x : Except ε α} {b : β}

theorem eq_of_map_ok {f : α → β} (h : x.map f = .ok b) : ∃ a, x = .ok a ∧ f a = b := by
  cases x with
  | error e => cases h
  | ok a => exact ⟨a, rfl, Except.ok.inj h⟩

theorem eq_of_bind_ok {f : α → Except ε β} (h : x >>= f = .ok b) :
    ∃ a, x = .ok a ∧ f a = .ok b := by
  cases x with
  | error e => cases h
  | ok a => exact ⟨a, rfl, h⟩

end

/-! ## Results in any monad -/

section

variable {m : Type → Type} [Monad m]

/-- Whether work gives only results with a property, as far as what follows can tell. -/
def Gives {α : Type} (p : α → Prop) (x : m α) : Prop :=
  ∀ ⦃β : Type⦄ (f g : α → m β), (∀ a, p a → f a = g a) → x >>= f = x >>= g

theorem Gives.mono {α : Type} {p q : α → Prop} {x : m α} (hx : Gives p x) (h : ∀ a, p a → q a) :
    Gives q x :=
  fun _ f g hfg => hx f g fun a ha => hfg a (h a ha)

/-- Work with a state gives what it gives from every state. -/
theorem gives_of_run {σ α : Type} {p : α → Prop} {x : StateT σ m α}
    (h : ∀ a, Gives (fun r => p r.1) (x.run a)) : Gives p x := by
  intro β f g hfg
  refine StateT.ext fun a => ?_
  rw [StateT.run_bind, StateT.run_bind]
  exact h a _ _ fun r hr => by rw [hfg r.1 hr]

variable [LawfulMonad m]

theorem gives_pure {α : Type} {p : α → Prop} {a : α} (h : p a) : Gives p (pure a : m α) := by
  intro β f g hfg
  rw [pure_bind, pure_bind, hfg a h]

/-- A result without effects has the property. -/
theorem Gives.id_run {α : Type} {p : α → Prop} {x : Id α} (hx : Gives p x) : p x.run := by
  classical
  by_contra hp
  have h := hx (fun _ => (pure true : Id Bool)) (fun a => pure (decide (p a))) fun a ha => by
    rw [decide_eq_true ha]
  have hfalse : (true : Bool) = decide (p x.run) := h
  rw [decide_eq_false hp] at hfalse
  exact absurd hfalse (by decide)

theorem Gives.bind {α β : Type} {p : α → Prop} {q : β → Prop} {x : m α} {f : α → m β}
    (hx : Gives p x) (hf : ∀ a, p a → Gives q (f a)) : Gives q (x >>= f) := by
  intro γ g h hgh
  rw [bind_assoc, bind_assoc]
  exact hx _ _ fun a ha => hf a ha g h hgh

/-- What work gives, it gives as a part of work that may fail. -/
theorem Gives.lift {ε α : Type} {p : α → Prop} {x : m α} (hx : Gives p x) :
    Gives p (ExceptT.lift x : ExceptT ε m α) := by
  intro β f g hfg
  refine ExceptT.ext ?_
  rw [ExceptT.run_bind_lift, ExceptT.run_bind_lift]
  exact hx _ _ fun a ha => by rw [hfg a ha]

end

/-! ## Work in a session -/

namespace Work

variable {α β : Type}

/-- How work ends that starts in a session: its result or its failure, and the session then. -/
def outcome (x : Work α) (s : Session) : Except Failure α × Session :=
  Id.run (StateT.run (ExceptT.run x) s)

theorem outcome_bind (x : Work α) (f : α → Work β) (s : Session) :
    outcome (x >>= f) s =
      match outcome x s with
      | (.ok a, s') => outcome (f a) s'
      | (.error e, s') => (.error e, s') := by
  unfold outcome
  rw [ExceptT.run_bind, StateT.run_bind]
  cases h : StateT.run (ExceptT.run x) s with
  | mk r s' => cases r <;> rfl

/-! ### Reading that may fail -/

section

variable {m : Type → Type} [Monad m] [LawfulMonad m] [MonadExceptOf Failure m]

theorem orFail_lift_bind (x : m α) (f : α → ExceptT Overlong m β) :
    orFail (ExceptT.lift x >>= f) = x >>= fun a => orFail (f a) := by
  rw [orFail, ExceptT.run_bind_lift, bind_assoc]
  rfl

theorem orFail_pure (a : α) : orFail (pure a : ExceptT Overlong m α) = pure a := by
  rw [orFail, ExceptT.run_pure, pure_bind]

/-- Work goes on with what is read. -/
theorem lift_ok_bind (a : α) (f : α → Work β) :
    (liftM (Except.ok a : Except Overlong α) : Work α) >>= f = f a := rfl

/-- Work in which no reading fails is that work. -/
theorem orFail_lift (x : m α) : orFail (ExceptT.lift x : ExceptT Overlong m α) = x := by
  have key := orFail_lift_bind x (pure : α → ExceptT Overlong m α)
  rw [bind_pure] at key
  simp only [key, orFail_pure, bind_pure]

theorem orFail_throw (n : Overlong) :
    orFail (throw n : ExceptT Overlong m α) = throw (.overlong n) := by
  rw [orFail, ExceptT.run_throw, pure_bind]

/-- Work that follows a failed reading is not done. -/
theorem orFail_bind {x : ExceptT Overlong m α} {f : α → ExceptT Overlong m β}
    (hthrow : ∀ (e : Failure) (g : α → m β), (throw e : m α) >>= g = throw e) :
    orFail (x >>= f) = orFail x >>= fun a => orFail (f a) := by
  rw [orFail, ExceptT.run_bind, orFail, bind_assoc, bind_assoc]
  refine bind_congr fun r => ?_
  cases r with
  | ok a =>
      rw [pure_bind]
      rfl
  | error n => rw [pure_bind, hthrow]

end

/-! ### Endings -/

/-- Whether work that starts in a session ends as it should: a result and the session after it
have one property, a failure has another. -/
def Ends (x : Work α) (s : Session) (P : α → Session → Prop) (E : Failure → Prop) : Prop :=
  match outcome x s with
  | (.ok a, s') => P a s'
  | (.error e, _) => E e

variable {x : Work α} {s : Session} {P Q : α → Session → Prop} {E F : Failure → Prop}

theorem ends_pure {a : α} (h : P a s) : Ends (pure a) s P E := h

theorem ends_throw {e : Failure} (h : E e) : Ends (throw e : Work α) s P E := h

theorem Ends.mono (h : x.Ends s P E) (hP : ∀ a s', P a s' → Q a s') (hE : ∀ e, E e → F e) :
    x.Ends s Q F := by
  unfold Ends at h ⊢
  generalize outcome x s = r at h ⊢
  rcases r with ⟨e | a, s'⟩
  exacts [hE e h, hP a s' h]

theorem Ends.bind {f : α → Work β} {R : β → Session → Prop} (hx : x.Ends s P E)
    (hf : ∀ a s', P a s' → (f a).Ends s' R E) : (x >>= f).Ends s R E := by
  unfold Ends at hx ⊢
  rw [outcome_bind]
  generalize outcome x s = r at hx ⊢
  rcases r with ⟨e | a, s'⟩
  exacts [hx, hf a s' hx]

/-- After a draw, work goes on with the next marker. -/
theorem ends_draw_bind {markers : Markers} {f : Text → Work β} {R : β → Session → Prop}
    (h : (f (markers (s.drawn + 1))).Ends { s with drawn := s.drawn + 1 } R E) :
    (draw markers >>= f).Ends s R E := by
  unfold Ends at h ⊢
  rwa [outcome_bind]

/-- After a line is written, work goes on with a longer log. -/
theorem ends_write_bind {line : Text} {f : Unit → Work β} {R : β → Session → Prop}
    (h : (f ()).Ends { s with log := s.log ++ [line] } R E) :
    (write line >>= f).Ends s R E := by
  unfold Ends at h ⊢
  rwa [outcome_bind]

/-- What work ends with is its outcome. -/
theorem Ends.with_outcome (h : x.Ends s P E) :
    x.Ends s (fun a s' => P a s' ∧ outcome x s = (.ok a, s')) E := by
  unfold Ends at h ⊢
  generalize outcome x s = r at h ⊢
  rcases r with ⟨e | a, s'⟩
  exacts [h, ⟨h, rfl⟩]

/-- What holds of the result of work that returns. -/
theorem Ends.of_ok {a : α} {s' : Session} (h : x.Ends s P E) (hrun : outcome x s = (.ok a, s')) :
    P a s' := by
  unfold Ends at h
  rwa [hrun] at h

/-- What holds of the failure of work that fails. -/
theorem Ends.of_error {e : Failure} {s' : Session} (h : x.Ends s P E)
    (hrun : outcome x s = (.error e, s')) : E e := by
  unfold Ends at h
  rwa [hrun] at h

/-- Work that ends well from every session gives only good results. -/
theorem gives_of_ends {p : α → Prop} (h : ∀ s, x.Ends s (fun a _ => p a) fun _ => True) :
    Gives p x := by
  intro β f g hfg
  have hrun : ∀ s, outcome (x >>= f) s = outcome (x >>= g) s := by
    intro s
    have hs := h s
    unfold Ends at hs
    rw [outcome_bind, outcome_bind]
    generalize outcome x s = r at hs ⊢
    rcases r with ⟨e | a, s'⟩
    · rfl
    · show outcome (f a) s' = outcome (g a) s'
      rw [hfg a hs]
  exact funext hrun

/-- What work gives holds of its results. -/
theorem ends_of_gives {p : α → Prop} (h : Gives p x) (s : Session) :
    x.Ends s (fun a _ => p a) fun _ => True := by
  classical
  have hx := h pure (fun a => if p a then pure a else throw (.tooDeep 0)) fun a ha => (if_pos ha).symm
  unfold Ends
  have hrun : outcome (x >>= pure) s
      = outcome (x >>= fun a => if p a then pure a else throw (.tooDeep 0)) s := by rw [hx]
  rw [bind_pure, outcome_bind] at hrun
  generalize outcome x s = r at hrun ⊢
  rcases r with ⟨e | a, s'⟩
  · trivial
  · by_contra hp
    dsimp only at hrun hp
    rw [if_neg hp] at hrun
    cases hrun

end Work
end Stencil
