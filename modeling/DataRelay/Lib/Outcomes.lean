import Mathlib.Tactic

/-! Programs that change a state and may raise. What was changed before an error stays changed:
undoing it is the handler's work, so a specification speaks of the state in both outcomes. -/
namespace Outcomes

universe u

variable {ε σ α β : Type u}

/-- Run from `s`, the program returns with `Q` or raises with `E`. Never unfolded by the
elaborator, which would run the program. -/
@[irreducible] def Ends (x : EStateM ε σ α) (s : σ) (Q : α → σ → Prop) (E : ε → σ → Prop) : Prop :=
  match x s with
  | .ok a t => Q a t
  | .error e t => E e t

variable {x : EStateM ε σ α} {s t : σ} {Q Q' : α → σ → Prop} {E E' : ε → σ → Prop}

theorem ends_of_ok {a : α} (hx : x s = .ok a t) : Ends x s Q E ↔ Q a t := by
  unfold Ends
  rw [hx]

theorem ends_of_error {e : ε} (hx : x s = .error e t) : Ends x s Q E ↔ E e t := by
  unfold Ends
  rw [hx]

theorem Ends.mono (h : Ends x s Q E) (hQ : ∀ a t, Q a t → Q' a t) (hE : ∀ e t, E e t → E' e t) :
    Ends x s Q' E' := by
  unfold Ends at h ⊢
  cases hx : x s with
  | ok a t =>
    rw [hx] at h
    exact hQ a t h
  | error e t =>
    rw [hx] at h
    exact hE e t h

@[simp] theorem ends_pure {a : α} : Ends (pure a) s Q E ↔ Q a s := by
  unfold Ends
  rfl

@[simp] theorem ends_throw {e : ε} : Ends (throw e : EStateM ε σ α) s Q E ↔ E e s := by
  unfold Ends
  rfl

@[simp] theorem ends_modify {f : σ → σ} {Q : PUnit → σ → Prop} :
    Ends (modify f : EStateM ε σ PUnit) s Q E ↔ Q ⟨⟩ (f s) := by
  unfold Ends
  rfl

/-- The rest of a sequence starts where its first part returned. -/
theorem ends_bind {f : α → EStateM ε σ β} {Q : β → σ → Prop} :
    Ends (x >>= f) s Q E ↔ Ends x s (fun a t => Ends (f a) t Q E) E := by
  show Ends (EStateM.bind x f) s Q E ↔ _
  unfold Ends EStateM.bind
  cases x s with
  | ok a t => rfl
  | error e t => rfl

theorem Ends.bind {f : α → EStateM ε σ β} {P : α → σ → Prop} {Q : β → σ → Prop}
    (h : Ends x s P E) (hf : ∀ a t, P a t → Ends (f a) t Q E) : Ends (x >>= f) s Q E :=
  ends_bind.mpr (h.mono hf fun _ _ he => he)

/-- A handler starts where its body raised. -/
theorem ends_tryCatch {handler : ε → EStateM ε σ α} :
    Ends (tryCatch x handler) s Q E ↔ Ends x s Q fun e t => Ends (handler e) t Q E := by
  show Ends (EStateM.tryCatch x handler) s Q E ↔ _
  unfold Ends EStateM.tryCatch
  cases x s with
  | ok a t => rfl
  | error e t => rfl

theorem Ends.tryCatch {handler : ε → EStateM ε σ α} {P : ε → σ → Prop} (h : Ends x s Q P)
    (hhandler : ∀ e t, P e t → Ends (handler e) t Q E) : Ends (tryCatch x handler) s Q E :=
  ends_tryCatch.mpr (h.mono (fun _ _ hq => hq) hhandler)

/-- A test of the state decides what is run. -/
def branch (test : σ → Bool) (x y : EStateM ε σ α) : EStateM ε σ α :=
  fun s => bif test s then x s else y s

theorem Ends.branch {test : σ → Bool} {y : EStateM ε σ α} (hx : test s = true → Ends x s Q E)
    (hy : test s = false → Ends y s Q E) : Ends (branch test x y) s Q E := by
  unfold Ends Outcomes.branch at *
  cases htest : test s with
  | false => exact hy htest
  | true => exact hx htest

end Outcomes
