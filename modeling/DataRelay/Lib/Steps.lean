import Mathlib.Data.List.Basic

/-! Runs of a deterministic system under an arbitrary sequence of actions. A condition on
single steps is lifted to whole runs, and an invariant that holds under it is carried along. -/
namespace Steps

variable {σ α : Type*} (step : σ → α → σ)

/-- The state after the actions. -/
def run (s : σ) (actions : List α) : σ := actions.foldl step s

/-- Every action meets `P` in the state it is taken in. -/
def Along (P : σ → α → Prop) : σ → List α → Prop
  | _, [] => True
  | s, a :: as => P s a ∧ Along P (step s a) as

instance decidableAlong (P : σ → α → Prop) [∀ s a, Decidable (P s a)] :
    ∀ (s : σ) (as : List α), Decidable (Along step P s as)
  | _, [] => .isTrue trivial
  | s, a :: as =>
    have := decidableAlong P (step s a) as
    inferInstanceAs (Decidable (P s a ∧ Along step P (step s a) as))

@[simp] theorem run_nil (s : σ) : run step s [] = s := rfl

@[simp] theorem run_cons (s : σ) (a : α) (as : List α) :
    run step s (a :: as) = run step (step s a) as := rfl

theorem run_append (s : σ) (as bs : List α) :
    run step s (as ++ bs) = run step (run step s as) bs := List.foldl_append

@[simp] theorem along_nil (P : σ → α → Prop) (s : σ) : Along step P s [] := trivial

@[simp] theorem along_cons (P : σ → α → Prop) (s : σ) (a : α) (as : List α) :
    Along step P s (a :: as) ↔ P s a ∧ Along step P (step s a) as := Iff.rfl

variable {step}

/-- An invariant that every admitted step keeps holds at the end of an admitted run. -/
theorem run_invariant {Inv : σ → Prop} {P : σ → α → Prop}
    (hstep : ∀ s a, Inv s → P s a → Inv (step s a)) {s : σ} {as : List α} (hs : Inv s)
    (has : Along step P s as) : Inv (run step s as) := by
  induction as generalizing s with
  | nil => exact hs
  | cons a as ih => exact ih (hstep s a hs has.1) has.2

/-- What an invariant gives at every admitted step holds along an admitted run. -/
theorem along_of_invariant {Inv : σ → Prop} {P Q : σ → α → Prop}
    (hstep : ∀ s a, Inv s → P s a → Inv (step s a)) (hQ : ∀ s a, Inv s → P s a → Q s a) {s : σ}
    {as : List α} (hs : Inv s) (has : Along step P s as) : Along step Q s as := by
  induction as generalizing s with
  | nil => trivial
  | cons a as ih => exact ⟨hQ s a hs has.1, ih (hstep s a hs has.1) has.2⟩

/-- What follows of a condition at each single step follows of it along every run. -/
theorem Along.imp {P Q : σ → α → Prop} (hPQ : ∀ s a, P s a → Q s a) {s : σ} {as : List α}
    (h : Along step P s as) : Along step Q s as := by
  induction as generalizing s with
  | nil => trivial
  | cons a as ih => exact ⟨hPQ s a h.1, ih h.2⟩

theorem Along.init {P : σ → α → Prop} {s : σ} {as bs : List α} (h : Along step P s (as ++ bs)) :
    Along step P s as := by
  induction as generalizing s with
  | nil => trivial
  | cons a as ih => exact ⟨h.1, ih h.2⟩

/-- The last step of a run is taken in the state the others lead to. -/
theorem Along.last {P : σ → α → Prop} {s : σ} {as : List α} {a : α}
    (h : Along step P s (as ++ [a])) : P (run step s as) a := by
  induction as generalizing s with
  | nil => exact h.1
  | cons b as ih => exact ih h.2

/-- A property of all steps holds along every run. -/
theorem along_of_forall {Q : σ → α → Prop} (hQ : ∀ s a, Q s a) (s : σ) (as : List α) :
    Along step Q s as := by
  induction as generalizing s with
  | nil => trivial
  | cons a as ih => exact ⟨hQ s a, ih _⟩

/-- The steps of a run take its own actions. -/
theorem along_mem (s : σ) (as : List α) : Along step (fun _ a => a ∈ as) s as := by
  suffices h : ∀ (bs : List α), (∀ b ∈ bs, b ∈ as) → ∀ s, Along step (fun _ a => a ∈ as) s bs from
    h as (fun b hb => hb) s
  intro bs
  induction bs with
  | nil => exact fun _ _ => trivial
  | cons b bs ih =>
    intro hbs s
    exact ⟨hbs b List.mem_cons_self, ih (fun c hc => hbs c (List.mem_cons_of_mem _ hc)) _⟩

end Steps
